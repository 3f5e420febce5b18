import Protowire.Decoding.Record
import Protowire.Proofs.FieldTable
import Protowire.Proofs.Read.Scalar
import Protowire.Proofs.Transcript

set_option autoImplicit false

/-!
# The values that a record brings

Every value in the update of a record was read as the kind that the field declares for it, or is
the default in place of a missing half of a map entry. Whatever holds of the values of each kind
so holds of all that a record can bring.
-/

namespace Protowire

/-- The slot takes records of the wire type in the form. -/
inductive FieldSlot.Takes (field : FieldSlot) : WireType → Form → Prop
  | single : field.cardinality = .single → Takes field field.kind.wireType .single
  | element : field.cardinality = .repeated → Takes field field.kind.wireType .element
  | packed {t : ScalarType} : field.cardinality = .repeated → field.kind = .scalar t →
      field.kind.isPackable = true → Takes field .delimited (.packed t)
  | entry {key : Kind} : field.cardinality = .map key → Takes field .delimited (.entry key)

theorem FieldSlot.form?_eq_some_iff {field : FieldSlot} {w : WireType} {form : Form} :
    field.form? w = some form ↔ field.Takes w form := by
  obtain ⟨number, index, name, cardinality, kind⟩ := field
  constructor
  · intro h
    cases cardinality with
    | single =>
      obtain ⟨rfl, rfl⟩ : w = kind.wireType ∧ .single = form := by simpa [form?] using h
      exact .single rfl
    | repeated =>
      cases kind with
      | scalar t =>
        simp only [form?] at h
        split at h
        · next packed =>
          obtain ⟨rfl, packable⟩ := packed
          cases h
          exact .packed rfl rfl packable
        · split at h
          · next same =>
            subst same
            cases h
            exact .element rfl
          · cases h
      | message type =>
        obtain ⟨rfl, rfl⟩ : w = .delimited ∧ .element = form := by simpa [form?] using h
        exact .element rfl
    | map key =>
      obtain ⟨rfl, rfl⟩ : w = .delimited ∧ .entry key = form := by simpa [form?] using h
      exact .entry rfl
  · intro h
    cases h with
    | single cardinality =>
      cases cardinality
      simp [form?]
    | element cardinality =>
      cases cardinality
      cases kind with
      | scalar t =>
        have notPacked : ¬ (t.wireType = .delimited ∧ (Kind.scalar t).isPackable) := by
          rintro ⟨delimited, packable⟩
          simp [Kind.isPackable, Kind.wireType, delimited] at packable
        simp only [form?, Kind.wireType, if_neg notPacked, if_true]
      | message type => simp [form?, Kind.wireType]
    | packed cardinality scalar packable =>
      cases cardinality
      cases scalar
      simp [form?, packable]
    | entry cardinality =>
      cases cardinality
      simp [form?]

theorem ScalarType.yields_read (t : ScalarType) :
    t.read.Yields fun s => s.variant = t.variant := by
  refine t.recognizes_read.yields.imp ?_
  rintro s ⟨bytes, p, -, meaning⟩
  exact variant_of_interpret? meaning

namespace Half

/-- The value of the half has the property that `P` gives the half's kind. -/
def Brings (P : Kind → Value → Prop) (keyKind kind : Kind) : Half → Prop
  | key v => P keyKind v
  | value v => P kind v

variable {missing : Value} {found : List (Option Half)}

/-- The last key is one of the keys that were found, unless there are none. -/
theorem lastKey_cases {p : Value → Prop} (keys : ∀ v, some (key v) ∈ found → p v) :
    lastKey missing found = missing ∨ p (lastKey missing found) := by
  induction found generalizing missing with
  | nil => exact .inl rfl
  | cons o found ih =>
    have later := fun v hv => keys v (List.mem_cons_of_mem o hv)
    rcases o with _ | v | v
    · exact ih later
    · right
      rcases @ih v later with same | brought
      · exact same.symm ▸ keys v List.mem_cons_self
      · exact brought
    · exact ih later

theorem lastValue_cases {p : Value → Prop} (values : ∀ v, some (value v) ∈ found → p v) :
    lastValue missing found = missing ∨ p (lastValue missing found) := by
  induction found generalizing missing with
  | nil => exact .inl rfl
  | cons o found ih =>
    have later := fun v hv => values v (List.mem_cons_of_mem o hv)
    rcases o with _ | v | v
    · exact ih later
    · exact ih later
    · right
      rcases @ih v later with same | brought
      · exact same.symm ▸ values v List.mem_cons_self
      · exact brought

end Half

/-- The updates that a record of the field can make in the form, if `P` holds of all values that
are read. -/
inductive Update.Brings (schema : Schema) (P : Kind → Value → Prop) (field : FieldSlot) :
    Form → Update → Prop
  | single {v : Value} : P field.kind v → Brings schema P field .single (.set field.index v)
  | element {v : Value} : P field.kind v →
      Brings schema P field .element (.append field.index [v])
  | packed {t : ScalarType} {ss : List Scalar} : (∀ s ∈ ss, s.variant = t.variant) →
      Brings schema P field (.packed t) (.append field.index (ss.map .scalar))
  | entry {keyKind : Kind} {key value : Value} :
      key = keyKind.default schema ∨ P keyKind key →
      value = field.kind.default schema ∨ P field.kind value →
      Brings schema P field (.entry keyKind) (.insert field.index key value)

namespace Decoding

variable {schema : Schema} {policy : MalformedTagPolicy} {nested : Nat → Read Message}
  {P : Kind → Value → Prop}

theorem yields_half (reads : ∀ k : Kind, (k.read nested).Yields (P k)) (keyKind kind : Kind) :
    (half policy nested keyKind kind).Yields fun o =>
      ∀ h, o = some h → h.Brings P keyKind kind := by
  refine .after fun o => ?_
  cases o with
  | none => exact .pure fun h same => by cases same
  | some tag =>
    simp only
    split
    · refine (reads keyKind).bind fun v brought => .pure fun h same => ?_
      cases same
      exact brought
    · split
      · refine (reads kind).bind fun v brought => .pure fun h same => ?_
        cases same
        exact brought
      · exact .after fun _ => .after fun _ => .pure fun h same => by cases same

theorem yields_entry (reads : ∀ k : Kind, (k.read nested).Yields (P k)) (keyKind kind : Kind) :
    (entry schema policy nested keyKind kind).Yields fun kv =>
      (kv.1 = keyKind.default schema ∨ P keyKind kv.1) ∧
        (kv.2 = kind.default schema ∨ P kind kv.2) := by
  refine .delimited fun c kv value => ?_
  rw [Logged.result_bind] at value
  obtain ⟨found, halves, made⟩ := Result.bind_eq_ok_iff.1 value
  cases made
  have all := (Transcript.all_untilEnd (yields_half reads keyKind kind) c).values halves
  constructor
  · exact Half.lastKey_cases fun v hv => all _ hv (.key v) rfl
  · exact Half.lastValue_cases fun v hv => all _ hv (.value v) rfl

theorem yields_packed (t : ScalarType) :
    (packed t).Yields fun ss => ∀ s ∈ ss, s.variant = t.variant :=
  .delimited fun c _ values => (Transcript.all_untilEnd t.yields_read c).values values

theorem yields_update (reads : ∀ k : Kind, (k.read nested).Yields (P k)) (field : FieldSlot)
    (form : Form) :
    (update schema policy nested field form).Yields (Update.Brings schema P field form) := by
  cases form with
  | single => exact (reads field.kind).bind fun v brought => .pure (.single brought)
  | element => exact (reads field.kind).bind fun v brought => .pure (.element brought)
  | packed t => exact (yields_packed t).bind fun ss variants => .pure (.packed variants)
  | entry keyKind =>
    exact (yields_entry reads keyKind field.kind).bind fun kv brought =>
      .pure (.entry brought.1 brought.2)

/-- What a record brings, it brings for a field of the table in a form that the field takes. -/
theorem yields_record (reads : ∀ k : Kind, (k.read nested).Yields (P k)) (table : FieldTable) :
    (record schema policy nested table).Yields fun o => ∀ u, o = some u →
      ∃ field ∈ table.slots, ∃ w form, field.Takes w form ∧ u.Brings schema P field form := by
  refine .after fun o => ?_
  cases o with
  | none => exact .pure fun u h => by cases h
  | some tag =>
    simp only
    split
    · next field found =>
      have declared := FieldTable.mem_of_slotByNumber? found
      refine .after fun _ => ?_
      split
      · next form takes =>
        have takes := FieldSlot.form?_eq_some_iff.1 takes
        refine (yields_update reads field form).bind fun u brings => .pure fun u' same => ?_
        cases same
        exact ⟨field, declared, _, form, takes, brings⟩
      · exact .after fun _ => .after fun _ => .pure fun u h => by cases h
    · exact .after fun _ => .after fun _ => .pure fun u h => by cases h

end Decoding

end Protowire
