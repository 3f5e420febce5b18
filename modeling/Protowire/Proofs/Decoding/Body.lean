import Protowire.Proofs.Decoding.Values

set_option autoImplicit false

/-!
# What follows a tag

A tag settles what its payload is read as: a half of a map entry, what a slot takes in one of its
forms, or nothing that anyone asks for. What a payload yields is left open here. The values in the
bytes and what is found in them are two accounts of the same records.
-/

namespace Protowire.Grammar

variable {β : Type}

/-- A payload of the wire type that nobody asks for the meaning of. -/
def Skipped (w : WireType) (bytes : Bytes) : Prop :=
  ∃ p : Payload, p.wireType = w ∧ p.Spells bytes

/-- A value without its tag, where `message` tells of embedded messages of each type. -/
inductive ValueBody (scalar : Scalar → β) (message : Nat → Bytes → β → Prop) :
    Kind → Bytes → β → Prop
  | scalar {t : ScalarType} {bytes : Bytes} {s : Scalar} : t.Spells bytes s →
      ValueBody scalar message (.scalar t) bytes (scalar s)
  | message {type : Nat} {bytes : Bytes} {b : β} : message type bytes b →
      ValueBody scalar message (.message type) bytes b

/-- What may follow a tag inside a map entry. -/
inductive EntryBody (key value : Bytes → β → Prop) (stray : β) (keyKind kind : Kind) (tag : Tag)
    (payload : Bytes) : β → Prop
  | key {b : β} : tag = ⟨.key, keyKind.wireType⟩ → key payload b →
      EntryBody key value stray keyKind kind tag payload b
  | value {b : β} : tag = ⟨.value, kind.wireType⟩ → value payload b →
      EntryBody key value stray keyKind kind tag payload b
  | stray : tag ≠ ⟨.key, keyKind.wireType⟩ → tag ≠ ⟨.value, kind.wireType⟩ →
      Skipped tag.wireType payload → EntryBody key value stray keyKind kind tag payload stray

/-- The payload of a record that a slot takes in the form. -/
def FormBody (single element : Bytes → β → Prop) (packed : ScalarType → Bytes → β → Prop)
    (entry : Kind → Bytes → β → Prop) : Form → Bytes → β → Prop
  | .single => single
  | .element => element
  | .packed t => Framed (packed t)
  | .entry keyKind => Framed (entry keyKind)

/-- What may follow a tag in a message. A record that no slot takes is stepped over. -/
inductive RecordBody (accepted : FieldSlot → Form → Bytes → β → Prop) (mismatched unknown : β)
    (table : FieldTable) (tag : Tag) (payload : Bytes) : β → Prop
  | accepted {field : FieldSlot} {form : Form} {b : β} : field ∈ table.slots →
      field.number = tag.number → field.Takes tag.wireType form →
      accepted field form payload b → RecordBody accepted mismatched unknown table tag payload b
  | mismatched {field : FieldSlot} : field ∈ table.slots → field.number = tag.number →
      (∀ form, ¬ field.Takes tag.wireType form) → Skipped tag.wireType payload →
      RecordBody accepted mismatched unknown table tag payload mismatched
  | unknown : (∀ field ∈ table.slots, field.number ≠ tag.number) →
      Skipped tag.wireType payload →
      RecordBody accepted mismatched unknown table tag payload unknown

variable {tag : Tag} {payload : Bytes} {b : β}

theorem valueBody_scalar_iff {scalar : Scalar → β} {message : Nat → Bytes → β → Prop}
    {t : ScalarType} :
    ValueBody scalar message (.scalar t) payload b ↔ Mapped t.Spells scalar payload b := by
  constructor
  · rintro (spelled | _)
    exact ⟨_, spelled, rfl⟩
  · rintro ⟨s, spelled, rfl⟩
    exact .scalar spelled

theorem valueBody_message_iff {scalar : Scalar → β} {message : Nat → Bytes → β → Prop}
    {type : Nat} :
    ValueBody scalar message (.message type) payload b ↔ message type payload b := by
  constructor
  · rintro (_ | told)
    exact told
  · exact .message

section Entry

variable {key value : Bytes → β → Prop} {stray : β} {keyKind kind : Kind}

/-- The tag decides which half a record of an entry holds. -/
theorem entryBody_key_iff (isKey : tag = ⟨.key, keyKind.wireType⟩) :
    EntryBody key value stray keyKind kind tag payload b ↔ key payload b := by
  have different : FieldNumber.key ≠ FieldNumber.value := by decide
  constructor
  · intro body
    cases body with
    | key _ told => exact told
    | value isValue _ =>
      rw [isKey] at isValue
      exact (different (congrArg Tag.number isValue)).elim
    | stray notKey _ _ => exact (notKey isKey).elim
  · exact .key isKey

theorem entryBody_value_iff (isValue : tag = ⟨.value, kind.wireType⟩) :
    EntryBody key value stray keyKind kind tag payload b ↔ value payload b := by
  have different : FieldNumber.value ≠ FieldNumber.key := by decide
  constructor
  · intro body
    cases body with
    | key isKey _ =>
      rw [isValue] at isKey
      exact (different (congrArg Tag.number isKey)).elim
    | value _ told => exact told
    | stray _ notValue _ => exact (notValue isValue).elim
  · exact .value isValue

theorem entryBody_stray_iff (notKey : tag ≠ ⟨.key, keyKind.wireType⟩)
    (notValue : tag ≠ ⟨.value, kind.wireType⟩) :
    EntryBody key value stray keyKind kind tag payload b ↔
      Skipped tag.wireType payload ∧ b = stray := by
  constructor
  · intro body
    cases body with
    | key isKey _ => exact (notKey isKey).elim
    | value isValue _ => exact (notValue isValue).elim
    | stray _ _ skipped => exact ⟨skipped, rfl⟩
  · rintro ⟨skipped, rfl⟩
    exact .stray notKey notValue skipped

end Entry

section Record

variable {accepted : FieldSlot → Form → Bytes → β → Prop} {mismatched unknown : β}
  {table : FieldTable} (built : table.Built) {field : FieldSlot}
include built

/-- Only one slot has the number, and its form is the only one. -/
theorem recordBody_accepted_iff {form : Form}
    (found : table.slotByNumber? tag.number.val = some field)
    (takes : field.form? tag.wireType = some form) :
    RecordBody accepted mismatched unknown table tag payload b ↔ accepted field form payload b := by
  have only {other : FieldSlot} (ho : other ∈ table.slots) (same : other.number = tag.number) :
      other = field := by
    have again := built.consistent.slotByNumber?_eq_some_iff.2 ⟨ho, same⟩
    exact Option.some.inj (again.symm.trans found)
  obtain ⟨declared, number⟩ := built.consistent.slotByNumber?_eq_some_iff.1 found
  constructor
  · intro body
    cases body with
    | accepted ho number' takes' told =>
      obtain rfl := only ho number'
      rw [← FieldSlot.form?_eq_some_iff] at takes'
      cases takes.symm.trans takes'
      exact told
    | mismatched ho number' refused _ =>
      obtain rfl := only ho number'
      exact (refused form (FieldSlot.form?_eq_some_iff.1 takes)).elim
    | unknown absent _ => exact (absent field declared number).elim
  · exact .accepted declared number (FieldSlot.form?_eq_some_iff.1 takes)

theorem recordBody_mismatched_iff (found : table.slotByNumber? tag.number.val = some field)
    (mismatch : field.form? tag.wireType = none) :
    RecordBody accepted mismatched unknown table tag payload b ↔
      Skipped tag.wireType payload ∧ b = mismatched := by
  have refused (form : Form) : ¬ field.Takes tag.wireType form := by
    intro takes
    rw [← FieldSlot.form?_eq_some_iff, mismatch] at takes
    cases takes
  obtain ⟨declared, number⟩ := built.consistent.slotByNumber?_eq_some_iff.1 found
  constructor
  · intro body
    cases body with
    | accepted ho number' takes _ =>
      have again := built.consistent.slotByNumber?_eq_some_iff.2 ⟨ho, number'⟩
      cases again.symm.trans found
      exact (refused _ takes).elim
    | mismatched _ _ _ skipped => exact ⟨skipped, rfl⟩
    | unknown absent _ => exact (absent field declared number).elim
  · rintro ⟨skipped, rfl⟩
    exact .mismatched declared number refused skipped

theorem recordBody_unknown_iff (missing : table.slotByNumber? tag.number.val = none) :
    RecordBody accepted mismatched unknown table tag payload b ↔
      Skipped tag.wireType payload ∧ b = unknown := by
  have absent : ∀ field ∈ table.slots, field.number ≠ tag.number := by
    intro field hf number
    have found := built.consistent.slotByNumber?_eq_some_iff.2 ⟨hf, number⟩
    cases missing.symm.trans found
  constructor
  · intro body
    cases body with
    | accepted hf number _ _ => exact (absent _ hf number).elim
    | mismatched hf number _ _ => exact (absent _ hf number).elim
    | unknown _ skipped => exact ⟨skipped, rfl⟩
  · rintro ⟨skipped, rfl⟩
    exact .unknown absent skipped

end Record

end Protowire.Grammar
