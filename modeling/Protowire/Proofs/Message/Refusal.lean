import Protowire.Proofs.Message.Update

set_option autoImplicit false

/-!
# Changes that are made or refused

A change either goes to a declared slot of its cardinality with values that the slot takes, and is
made, or it is refused with an error that nothing else has. Made or refused, it leaves a message
that fits if the values it brings do.
-/

namespace Protowire

/-- What a change is refused with. -/
inductive Error.Refusal : Error → Prop
  | typeMismatch (expected : Expected) (found : Found) : Refusal (.typeMismatch expected found)
  | unsupportedCardinality (slot : Nat) : Refusal (.unsupportedCardinality slot)

variable {schema : Schema} {access : Accessors}

/-- The message in the value, if there is one, fits its type. -/
def Value.Intact (schema : Schema) : Value → Prop
  | .scalar _ => True
  | .message m => m.Fits schema (schema.table m.type)

/-- The messages that the update brings fit their types. -/
def Update.Intact (schema : Schema) : Update → Prop
  | .set _ v => v.Intact schema
  | .append _ vs => ∀ v ∈ vs, v.Intact schema
  | .insert _ key value => key.Intact schema ∧ value.Intact schema

theorem Kind.Holds.intact {k : Kind} {v : Value} (h : k.Holds schema v) : v.Intact schema := by
  cases h with
  | scalar variant => trivial
  | message fits => exact fits

namespace Kind

variable {k : Kind} {v : Value}

/-- A kind takes the value as it is or refuses it. -/
theorem accept_cases (k : Kind) (v : Value) :
    k.accept v = .ok v ∨ ∃ e, k.accept v = .error e ∧ e.Refusal := by
  cases k with
  | scalar t =>
    cases v with
    | scalar s =>
      by_cases same : s.variant = t.variant
      · left
        simp only [accept, Value.expectScalar, if_pos same]
        rfl
      · right
        refine ⟨_, ?_, .typeMismatch (.variant t.variant) (.variant s.variant)⟩
        simp only [accept, Value.expectScalar, if_neg same]
        rfl
    | message m => exact .inr ⟨_, rfl, .typeMismatch _ _⟩
  | message type =>
    cases v with
    | scalar s => exact .inr ⟨_, rfl, .typeMismatch _ _⟩
    | message m =>
      by_cases same : m.type = type
      · left
        simp only [accept, Value.expectMessage, if_pos same]
        rfl
      · right
        refine ⟨_, ?_, .typeMismatch (.messageType type) .otherMessageType⟩
        simp only [accept, Value.expectMessage, if_neg same]
        rfl

/-- What an accessor takes is of the kind, except for what it does not look into. -/
theorem holds_of_accept (h : k.accept v = .ok v) (intact : v.Intact schema) :
    k.Holds schema v := by
  cases k with
  | scalar t =>
    cases v with
    | scalar s =>
      apply Holds.scalar
      by_cases same : s.variant = t.variant
      · exact same
      · simp only [accept, Value.expectScalar, if_neg same] at h
        cases h
    | message m => cases h
  | message type =>
    cases v with
    | scalar s => cases h
    | message m =>
      by_cases same : m.type = type
      · subst same
        exact .message intact
      · simp only [accept, Value.expectMessage, if_neg same] at h
        cases h

end Kind

namespace Message

variable {m : Message} {i : Nat}

/-- All that setting a slot can do. -/
theorem set_cases (schema : Schema) (m : Message) (i : Nat) (v : Value) :
    (∃ field, (schema.table m.type).slots[i]? = some field ∧ field.cardinality = .single ∧
      field.kind.accept v = .ok v ∧ m.set schema i v = .ok (m.put i (.single v))) ∨
    ∃ e, m.set schema i v = .error e ∧ e.Refusal := by
  unfold set declared?
  split
  · next number index name kind declared =>
    rcases kind.accept_cases v with taken | ⟨e, refused, refusal⟩
    · left
      refine ⟨_, declared, rfl, taken, ?_⟩
      rw [taken]
      rfl
    · right
      refine ⟨e, ?_, refusal⟩
      rw [refused]
      rfl
  · exact .inr ⟨_, rfl, .unsupportedCardinality i⟩

/-- All that appending to a slot can do. -/
theorem append_cases (schema : Schema) (access : Accessors) (m : Message) (i : Nat) (v : Value) :
    (∃ field, (access m.type).append = true ∧ (schema.table m.type).slots[i]? = some field ∧
      field.cardinality = .repeated ∧ field.kind.accept v = .ok v ∧
      m.append schema access i v = .ok (m.push i v)) ∨
    ∃ e, m.append schema access i v = .error e ∧ e.Refusal := by
  unfold append declared?
  split
  · next number index name kind lets declared =>
    rcases kind.accept_cases v with taken | ⟨e, refused, refusal⟩
    · left
      refine ⟨_, lets, declared, rfl, taken, ?_⟩
      rw [taken]
      rfl
    · right
      refine ⟨e, ?_, refusal⟩
      rw [refused]
      rfl
  · exact .inr ⟨_, rfl, .unsupportedCardinality i⟩

/-- All that inserting an entry can do. -/
theorem insert_cases (schema : Schema) (access : Accessors) (m : Message) (i : Nat)
    (key value : Value) :
    (∃ field keyKind, (access m.type).insert = true ∧
      (schema.table m.type).slots[i]? = some field ∧ field.cardinality = .map keyKind ∧
      keyKind.accept key = .ok key ∧
      field.kind.accept value = .ok value ∧ m.insert schema access i key value =
        .ok (m.put i (.map (Entry.insert key value (m.slot i).entries)))) ∨
    ∃ e, m.insert schema access i key value = .error e ∧ e.Refusal := by
  unfold insert declared?
  split
  · next number index name keyKind kind lets declared =>
    rcases keyKind.accept_cases key with taken | ⟨e, refused, refusal⟩
    · rcases kind.accept_cases value with taken' | ⟨e, refused, refusal⟩
      · left
        refine ⟨_, keyKind, lets, declared, rfl, taken, taken', ?_⟩
        rw [taken, taken']
        rfl
      · right
        refine ⟨e, ?_, refusal⟩
        rw [taken, refused]
        rfl
    · right
      refine ⟨e, ?_, refusal⟩
      rw [refused]
      rfl
  · exact .inr ⟨_, rfl, .unsupportedCardinality i⟩

theorem refusal_of_appendAll {vs : List Value} {e : Error}
    (h : (m.appendAll schema access i vs).result = .error e) : e.Refusal := by
  induction vs generalizing m with
  | nil => cases h
  | cons v vs ih =>
    unfold appendAll at h
    rcases append_cases schema access m i v with
      ⟨field, -, -, -, -, made⟩ | ⟨e', refused, refusal⟩
    · rw [made] at h
      exact ih h
    · rw [refused] at h
      cases h
      exact refusal

/-- An update fails only by being refused. -/
theorem refusal_of_update {u : Update} {e : Error}
    (h : (m.update schema access u).result = .error e) : e.Refusal := by
  cases u with
  | set i v =>
    rcases set_cases schema m i v with ⟨field, -, -, -, made⟩ | ⟨e', refused, refusal⟩
    · simp only [update, attempt, made] at h
      cases h
    · simp only [update, attempt, refused] at h
      cases h
      exact refusal
  | append i vs => exact refusal_of_appendAll h
  | insert i key value =>
    rcases insert_cases schema access m i key value with
      ⟨field, keyKind, -, -, -, -, -, made⟩ | ⟨e', refused, refusal⟩
    · simp only [update, attempt, made] at h
      cases h
    · simp only [update, attempt, refused] at h
      cases h
      exact refusal

/-- A message of the type, and one that fits it. -/
structure OfType (schema : Schema) (type : Nat) (m : Message) : Prop where
  type_eq : m.type = type
  fits : m.Fits schema (schema.table type)

theorem ofType_fresh (schema : Schema) (type : Nat) : (schema.fresh type).OfType schema type :=
  ⟨rfl, fits_fresh schema type⟩

variable {type : Nat}

theorem OfType.put {field : FieldSlot} {s : Slot} (h : m.OfType schema type)
    (declared : (schema.table type).slots[i]? = some field) (holds : field.Holds schema s) :
    (m.put i s).OfType schema type :=
  ⟨(type_put ..).trans h.type_eq, fits_put h.fits declared holds⟩

theorem OfType.appendAll {vs : List Value} (h : m.OfType schema type)
    (intact : ∀ v ∈ vs, v.Intact schema) :
    (m.appendAll schema access i vs).message.OfType schema type := by
  induction vs generalizing m with
  | nil => exact h
  | cons v vs ih =>
    unfold Message.appendAll
    rcases append_cases schema access m i v with
      ⟨field, -, declared, cardinality, taken, made⟩ | ⟨e, refused, -⟩
    · rw [made]
      rw [h.type_eq] at declared
      have holds := Kind.holds_of_accept taken (intact v List.mem_cons_self)
      apply ih
      · exact ⟨(type_push ..).trans h.type_eq, fits_push h.fits declared cardinality holds⟩
      · exact fun w hw => intact w (List.mem_cons_of_mem v hw)
    · rw [refused]
      exact h

/-- Whatever becomes of an update, the message still fits. -/
theorem OfType.update {u : Update} (h : m.OfType schema type) (intact : u.Intact schema) :
    (m.update schema access u).message.OfType schema type := by
  cases u with
  | set i v =>
    rcases set_cases schema m i v with
      ⟨field, declared, cardinality, taken, made⟩ | ⟨e, refused, -⟩
    · simp only [Message.update, attempt, made]
      rw [h.type_eq] at declared
      exact h.put declared (.single cardinality (Kind.holds_of_accept taken intact))
    · simp only [Message.update, attempt, refused]
      exact h
  | append i vs => exact h.appendAll intact
  | insert i key value =>
    rcases insert_cases schema access m i key value with
      ⟨field, keyKind, -, declared, cardinality, taken, taken', made⟩ | ⟨e, refused, -⟩
    · simp only [Message.update, attempt, made]
      rw [h.type_eq] at declared
      apply h.put declared
      apply holds_insert (holds_slot h.fits declared) cardinality
      · exact Kind.holds_of_accept taken intact.1
      · exact Kind.holds_of_accept taken' intact.2
    · simp only [Message.update, attempt, refused]
      exact h

end Message

end Protowire
