import Protowire.Proofs.Decoding.Grammar

set_option autoImplicit false

/-!
# A single record

What becomes of the record that an input begins with, once it is known what its payload is read as.
-/

namespace Protowire

/-- The slot does not take records of the wire type. A single one takes the wire type of its kind
alone, a list also packed elements if its elements pack, and a map delimited entries. -/
def FieldSlot.Refuses (field : FieldSlot) (w : WireType) : Prop :=
  match field.cardinality with
  | .single => w ≠ field.kind.wireType
  | .repeated => w ≠ field.kind.wireType ∧ ¬ (w = .delimited ∧ field.kind.isPackable = true)
  | .map _ => w ≠ .delimited

instance (field : FieldSlot) (w : WireType) : Decidable (field.Refuses w) :=
  match field with
  | ⟨_, _, _, .single, kind⟩ => inferInstanceAs (Decidable (w ≠ kind.wireType))
  | ⟨_, _, _, .repeated, kind⟩ =>
    inferInstanceAs (Decidable (w ≠ kind.wireType ∧ ¬ (w = .delimited ∧ kind.isPackable = true)))
  | ⟨_, _, _, .map _, _⟩ => inferInstanceAs (Decidable (w ≠ .delimited))

/-- No slot takes a record with the tag. -/
def FieldTable.Ignores (table : FieldTable) (tag : Tag) : Prop :=
  ∀ field ∈ table.slots, field.number = tag.number → field.Refuses tag.wireType

instance (table : FieldTable) (tag : Tag) : Decidable (table.Ignores tag) :=
  inferInstanceAs (Decidable (∀ field ∈ table.slots,
    field.number = tag.number → field.Refuses tag.wireType))

theorem FieldSlot.form?_eq_none_of_refuses {field : FieldSlot} {w : WireType}
    (h : field.Refuses w) : field.form? w = none := by
  cases hf : field.form? w with
  | none => rfl
  | some form =>
    exfalso
    have takes := FieldSlot.form?_eq_some_iff.1 hf
    unfold Refuses at h
    cases takes with
    | single cardinality =>
      rw [cardinality] at h
      exact h rfl
    | element cardinality =>
      rw [cardinality] at h
      exact h.1 rfl
    | packed cardinality scalar packable =>
      rw [cardinality] at h
      exact h.2 ⟨rfl, packable⟩
    | entry cardinality =>
      rw [cardinality] at h
      exact h rfl

namespace Decoding

variable {schema : Schema} {policy : MalformedTagPolicy} {nested : Nat → Read Message}

/-- A tag that leads to a slot hands its payload to the slot. -/
theorem answersAt_record_of_spells {type offset : Nat} {field : FieldSlot} {w : WireType}
    {form : Form} {head payload : Bytes} {result : Except Error Update}
    (spelled : Tag.Spells head ⟨field.number, w⟩)
    (declared : field ∈ (schema.table type).slots) (takes : field.Takes w form)
    (h : (update schema policy nested field form).AnswersAt (offset + head.length) payload
      result) :
    (record schema policy nested (schema.table type)).AnswersAt offset (head ++ payload)
      (some <$> result) := by
  have table := (schema.built_table type).consistent
  have found := table.slotByNumber?_eq_some_iff.2 ⟨declared, rfl⟩
  refine (Tag.takes_next policy spelled).bind_answersAt ?_
  simp only [found, FieldSlot.form?_eq_some_iff.2 takes]
  exact (Read.takes_emit _).bind_answersAt (h.bind_pure some)

theorem answersAt_record {type offset : Nat} {field : FieldSlot} {w : WireType} {form : Form}
    {payload : Bytes} {result : Except Error Update}
    (declared : field ∈ (schema.table type).slots) (takes : field.Takes w form)
    (h : (update schema policy nested field form).AnswersAt
      (offset + (Tag.mk field.number w).encode.length) payload result) :
    (record schema policy nested (schema.table type)).AnswersAt offset
      ((Tag.mk field.number w).encode ++ payload) (some <$> result) :=
  answersAt_record_of_spells (Tag.spells_encode _) declared takes h

/-- A record that no slot takes is taken all the same and makes no update. -/
theorem takes_record_ignored {table : FieldTable} (built : table.Built) {head payload : Bytes}
    {tag : Tag} (spelled : Tag.Spells head tag) (skipped : Grammar.Skipped tag.wireType payload)
    (ignored : table.Ignores tag) :
    (record schema policy nested table).Takes (head ++ payload) none := by
  refine (Tag.takes_next policy spelled).bind ?_
  simp only
  split
  · next field found =>
    obtain ⟨declared, number⟩ := built.consistent.slotByNumber?_eq_some_iff.1 found
    have refused := FieldSlot.form?_eq_none_of_refuses (ignored field declared number)
    have skip : (do
        let _ ← tag.wireType.skip
        return none : Read (Option Update)).Takes payload none :=
      (recognizes_skipped fun _ => .pure none).takes ⟨skipped, rfl⟩
    simp only [refused]
    exact (Read.takes_emit _).bind ((Read.takes_emit _).bind skip)
  · exact (recognizes_skipped fun _ => .emit_bind _ (.pure none)).takes ⟨skipped, rfl⟩

section Input

variable {options : DecodeOptions} {access : Accessors} {table : FieldTable} {bytes : Bytes}

theorem transcript_record {o : Option Update}
    (answers : (record schema options.malformedTags
      (message schema options access options.recursionLimit.toNat) table).AnswersAt 0 bytes
        (.ok o)) :
    ∃ log, transcript schema options access table bytes = .turn o log .finished := by
  have consumes := consumes_record schema options.malformedTags
    (message schema options access options.recursionLimit.toNat) table
  obtain ⟨log, turn⟩ := Read.untilEnd_of_answersAt consumes answers []
  have nothing := @Read.untilEnd_of_nil _ _ consumes ⟨0 + bytes.length, []⟩ rfl
  rw [List.append_nil, nothing] at turn
  exact ⟨log, turn⟩

/-- A record that cannot be read is where reading ends, whatever comes behind it. -/
theorem transcript_record_error {e : Error} (nonempty : bytes ≠ [])
    (answers : (record schema options.malformedTags
      (message schema options access options.recursionLimit.toNat) table).AnswersAt 0 bytes
        (.error e))
    (rest : Bytes) :
    ∃ log, transcript schema options access table (bytes ++ rest) = .failed e log :=
  Read.untilEnd_of_answersAt_error nonempty answers rest

end Input

end Decoding

end Protowire
