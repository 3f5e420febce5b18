import Protowire.Proofs.Encoding.Size
import Protowire.Proofs.Message.Refusal

set_option autoImplicit false

/-!
# Which messages are written

The encoder looks at the shapes of slots and at the variants of values, down through all nested
messages, and refuses what does not conform. One thing it overlooks: where a single value may be
left off, an empty string or byte string is, before anyone asks whether the field holds strings.
-/

namespace Protowire

section

variable (schema : Schema) (overlooks : Kind → Value → Prop)

mutual

/-- The value is of the variant that the kind demands. The slots of a message are looked at
through the kind's own table, whatever type the message says it is of. -/
inductive Kind.Admits : Kind → Value → Prop
  | scalar {t : ScalarType} {s : Scalar} : s.variant = t.variant →
      Kind.Admits (.scalar t) (.scalar s)
  | message {type : Nat} {m : Message} : Message.Conforms (schema.table type) m →
      Kind.Admits (.message type) (.message m)

/-- The same for a value that is left off the wire if it is a default. -/
inductive Kind.AdmitsSingle : Kind → Value → Prop
  | admits {k : Kind} {v : Value} : Kind.Admits k v → Kind.AdmitsSingle k v
  | overlooked {k : Kind} {v : Value} : overlooks k v → Kind.AdmitsSingle k v

/-- The slot has the shape of the field's cardinality, or is unset. -/
inductive FieldSlot.Conforms : FieldSlot → Slot → Prop
  | unset {field : FieldSlot} : FieldSlot.Conforms field .unset
  | single {field : FieldSlot} {v : Value} : field.cardinality = .single →
      Kind.AdmitsSingle field.kind v → FieldSlot.Conforms field (.single v)
  | repeated {field : FieldSlot} {vs : List Value} : field.cardinality = .repeated →
      (∀ v ∈ vs, Kind.Admits field.kind v) → FieldSlot.Conforms field (.repeated vs)
  | map {field : FieldSlot} {key : Kind} {es : List Entry} : field.cardinality = .map key →
      (∀ e ∈ es, Kind.AdmitsSingle key e.key) →
      (∀ e ∈ es, Kind.AdmitsSingle field.kind e.value) →
      FieldSlot.Conforms field (.map es)

inductive Message.Conforms : FieldTable → Message → Prop
  | slots {table : FieldTable} {m : Message} :
      (∀ i field, table.slots[i]? = some field → FieldSlot.Conforms field (m.slot i)) →
      Message.Conforms table m

end

end

/-- The encoder leaves the value off without asking for its variant. -/
def Kind.Overlooks (k : Kind) (v : Value) : Prop :=
  k.wireType = .delimited ∧ (v = .scalar (.string "") ∨ v = .scalar (.bytes []))

/-- There is a result just where the condition holds, and a refusal elsewhere. -/
structure Result.TurnsOn {α : Type} (x : Except Error α) (p : Prop) : Prop where
  accepts : (∃ a, x = .ok a) ↔ p
  refuses : ∀ e, x = .error e → e.Refusal

namespace Result.TurnsOn

variable {α β : Type} {x : Except Error α} {p q : Prop}

theorem ok {a : α} (h : p) : TurnsOn (.ok a) p where
  accepts := ⟨fun _ => h, fun _ => ⟨a, rfl⟩⟩
  refuses e failed := by cases failed

theorem error {e : Error} (refusal : e.Refusal) (h : ¬ p) :
    TurnsOn (.error e : Except Error α) p where
  accepts := by
    constructor
    · intro success
      obtain ⟨a, value⟩ := success
      cases value
    · exact fun hp => (h hp).elim
  refuses e' failed := by
    cases failed
    exact refusal

theorem congr (hx : TurnsOn x p) (h : p ↔ q) : TurnsOn x q where
  accepts := hx.accepts.trans h
  refuses := hx.refuses

theorem bind {f : α → Except Error β} (hx : TurnsOn x p) (hf : ∀ a, TurnsOn (f a) q) :
    TurnsOn (x >>= f) (p ∧ q) := by
  cases value : x with
  | error e =>
    refine .error (hx.refuses e value) fun both => ?_
    obtain ⟨a, success⟩ := hx.accepts.2 both.1
    rw [value] at success
    cases success
  | ok a =>
    have hp : p := hx.accepts.1 ⟨a, value⟩
    exact (hf a).congr (and_iff_right hp).symm

theorem bind_pure (hx : TurnsOn x p) (f : α → β) : TurnsOn (x >>= fun a => pure (f a)) p :=
  (hx.bind fun a => .ok (a := f a) trivial).congr (and_iff_left trivial)

theorem bind_bind_pure {y : Except Error β} {γ : Type} (hx : TurnsOn x p) (hy : TurnsOn y q)
    (f : α → β → γ) : TurnsOn (x >>= fun a => y >>= fun b => pure (f a b)) (p ∧ q) :=
  hx.bind fun a => hy.bind_pure (f a)

end Result.TurnsOn

namespace Encoding

open Result

variable {schema : Schema}

theorem refusal_mismatch (k : Kind) (v : Value) : (k.mismatch v).Refusal := .typeMismatch _ _

theorem turnsOn_payload (k : Kind) (s : Scalar) :
    TurnsOn (k.payload (.scalar s)) (Kind.Admits schema Kind.Overlooks k (.scalar s)) := by
  cases k with
  | scalar t =>
    cases payload : t.payload? s with
    | some p =>
      have variant := ScalarType.isSome_payload?_iff.1 (Option.isSome_iff_exists.2 ⟨p, payload⟩)
      simp only [Kind.payload, payload]
      exact .ok (.scalar variant)
    | none =>
      simp only [Kind.payload, payload]
      refine .error (refusal_mismatch _ _) fun admits => ?_
      cases admits with
      | scalar variant =>
        have some := ScalarType.isSome_payload?_iff.2 variant
        rw [payload] at some
        cases some
  | message type =>
    refine .error (refusal_mismatch _ _) fun admits => ?_
    cases admits

/-- Outside the delimited kinds there are no messages, and having a payload says it all. -/
theorem turnsOn_payload_of_not_delimited {k : Kind} (h : k.wireType ≠ .delimited) (v : Value) :
    TurnsOn (k.payload v) (Kind.Admits schema Kind.Overlooks k v) := by
  cases v with
  | scalar s => exact turnsOn_payload k s
  | message m =>
    cases k with
    | scalar t =>
      refine .error (refusal_mismatch _ _) fun admits => ?_
      cases admits
    | message type => exact (h rfl).elim

theorem omits_of_overlooks {k : Kind} {v : Value} (h : k.Overlooks v) : k.omits v = .ok true := by
  obtain ⟨delimited, rfl | rfl⟩ := h
  · simp [Kind.omits, delimited]
  · simp [Kind.omits, delimited]

theorem omits_of_delimited {k : Kind} {v : Value} (delimited : k.wireType = .delimited)
    (h : ¬ k.Overlooks v) : k.omits v = .ok false := by
  have nonempty : v ≠ .scalar (.string "") ∧ v ≠ .scalar (.bytes []) := by
    simpa [Kind.Overlooks, delimited] using h
  cases v with
  | message m => simp [Kind.omits, delimited]
  | scalar s =>
    cases s with
    | string text => simpa [Kind.omits, delimited] using nonempty.1
    | bytes content => simpa [Kind.omits, delimited] using nonempty.2
    | _ => simp [Kind.omits, delimited]

theorem omits_of_not_delimited {k : Kind} (h : k.wireType ≠ .delimited) (v : Value) :
    k.omits v = Payload.isZero <$> k.payload v := by
  unfold Kind.omits
  cases w : k.wireType with
  | delimited => exact (h w).elim
  | _ => exact (map_eq_pure_bind _ _).symm

theorem turnsOn_singleSize (number : FieldNumber) {k : Kind} {v : Value} {size : Except Error Nat}
    (h : TurnsOn size (Kind.Admits schema Kind.Overlooks k v)) :
    TurnsOn (singleSize number k v size) (Kind.AdmitsSingle schema Kind.Overlooks k v) := by
  by_cases overlooked : k.Overlooks v
  · rw [singleSize, omits_of_overlooks overlooked]
    exact .ok (.overlooked overlooked)
  · have asked : Kind.Admits schema Kind.Overlooks k v ↔
        Kind.AdmitsSingle schema Kind.Overlooks k v := by
      constructor
      · exact .admits
      · intro single
        cases single with
        | admits admits => exact admits
        | overlooked h => exact (overlooked h).elim
    refine .congr ?_ asked
    have written : TurnsOn (do return (Tag.mk number k.wireType).size + (← size))
        (Kind.Admits schema Kind.Overlooks k v) := h.bind_pure _
    by_cases delimited : k.wireType = .delimited
    · rw [singleSize, omits_of_delimited delimited overlooked]
      exact written
    · have payload := @turnsOn_payload_of_not_delimited schema k delimited v
      rw [singleSize, omits_of_not_delimited delimited]
      cases found : k.payload v with
      | error e =>
        rw [found] at payload
        refine .error (payload.refuses e rfl) fun admits => ?_
        obtain ⟨p, value⟩ := payload.accepts.2 admits
        cases value
      | ok p =>
        have admits := payload.accepts.1 ⟨p, found⟩
        cases zero : p.isZero with
        | true =>
          simp only [map_ok, ok_bind, zero]
          exact .ok admits
        | false =>
          simp only [map_ok, ok_bind, zero]
          exact written

mutual

theorem turnsOn_elementSize (k : Kind) (v : Value) :
    TurnsOn (elementSize schema k v) (Kind.Admits schema Kind.Overlooks k v) := by
  cases v with
  | scalar s => exact (turnsOn_payload k s).bind_pure _
  | message m =>
    cases k with
    | scalar t =>
      refine .error (refusal_mismatch _ _) fun admits => ?_
      cases admits
    | message type =>
      refine ((turnsOn_messageSize (schema.table type) m).bind_pure _).congr ?_
      constructor
      · exact .message
      · intro admits
        cases admits with
        | message conforms => exact conforms

theorem turnsOn_elementsSize (lead : Nat) (k : Kind) (vs : List Value) :
    TurnsOn (elementsSize schema lead k vs)
      (∀ v ∈ vs, Kind.Admits schema Kind.Overlooks k v) := by
  cases vs with
  | nil => exact .ok (by simp)
  | cons v vs =>
    rw [List.forall_mem_cons]
    exact (turnsOn_elementSize k v).bind_bind_pure (turnsOn_elementsSize lead k vs) _

theorem turnsOn_entrySize (keyKind kind : Kind) (e : Entry) :
    TurnsOn (entrySize schema keyKind kind e)
      (Kind.AdmitsSingle schema Kind.Overlooks keyKind e.key ∧
        Kind.AdmitsSingle schema Kind.Overlooks kind e.value) := by
  cases e with
  | mk key value =>
    exact (turnsOn_singleSize .key (turnsOn_elementSize keyKind key)).bind_bind_pure
      (turnsOn_singleSize .value (turnsOn_elementSize kind value)) _

theorem turnsOn_entriesSize (number : FieldNumber) (keyKind kind : Kind) (es : List Entry) :
    TurnsOn (entriesSize schema number keyKind kind es)
      (∀ e ∈ es, Kind.AdmitsSingle schema Kind.Overlooks keyKind e.key ∧
        Kind.AdmitsSingle schema Kind.Overlooks kind e.value) := by
  cases es with
  | nil => exact .ok (by simp)
  | cons e es =>
    rw [List.forall_mem_cons]
    exact (turnsOn_entrySize keyKind kind e).bind_bind_pure
      (turnsOn_entriesSize number keyKind kind es) _

theorem turnsOn_slotSize (field : FieldSlot) (s : Slot) :
    TurnsOn (slotSize schema field s)
      (FieldSlot.Conforms schema Kind.Overlooks field s) := by
  -- a slot of another shape than the field's is refused for that alone
  have misshapen : ∀ {p : Prop}, ¬ p →
      TurnsOn (.error (.unsupportedCardinality field.index) : Except Error Nat) p :=
    fun h => .error (.unsupportedCardinality field.index) h
  cases s with
  | unset => exact .ok .unset
  | single v =>
    simp only [slotSize]
    cases shape : field.cardinality with
    | single =>
      refine (turnsOn_singleSize field.number (turnsOn_elementSize field.kind v)).congr ?_
      constructor
      · exact .single shape
      · intro conforms
        cases conforms with
        | single _ admits => exact admits
    | _ =>
      refine misshapen fun conforms => ?_
      cases conforms with
      | single cardinality _ =>
        rw [shape] at cardinality
        cases cardinality
  | repeated vs =>
    simp only [slotSize]
    cases shape : field.cardinality with
    | repeated =>
      have conforms : (∀ v ∈ vs, Kind.Admits schema Kind.Overlooks field.kind v) ↔
          FieldSlot.Conforms schema Kind.Overlooks field (.repeated vs) := by
        constructor
        · exact .repeated shape
        · intro conforms
          cases conforms with
          | repeated _ admits => exact admits
      refine .congr ?_ conforms
      dsimp only
      split
      · next empty =>
        obtain rfl := List.isEmpty_iff.1 empty
        exact .ok (by simp)
      · split
        · exact (turnsOn_elementsSize 0 field.kind vs).bind_pure _
        · exact turnsOn_elementsSize _ field.kind vs
    | _ =>
      refine misshapen fun conforms => ?_
      cases conforms with
      | repeated cardinality _ =>
        rw [shape] at cardinality
        cases cardinality
  | map es =>
    simp only [slotSize]
    cases shape : field.cardinality with
    | map keyKind =>
      refine (turnsOn_entriesSize field.number keyKind field.kind es).congr ?_
      constructor
      · exact fun admits => .map shape (fun e he => (admits e he).1) fun e he => (admits e he).2
      · intro conforms
        cases conforms with
        | map cardinality keys values =>
          rw [shape] at cardinality
          cases cardinality
          exact fun e he => ⟨keys e he, values e he⟩
    | _ =>
      refine misshapen fun conforms => ?_
      cases conforms with
      | map cardinality _ _ =>
        rw [shape] at cardinality
        cases cardinality

theorem turnsOn_slotsSize (fields : List FieldSlot) (ss : List Slot) :
    TurnsOn (slotsSize schema fields ss) (∀ (i : Nat) (field : FieldSlot),
      fields[i]? = some field →
      FieldSlot.Conforms schema Kind.Overlooks field (ss[i]?.getD .unset)) := by
  cases fields with
  | nil =>
    rw [slotsSize]
    · exact .ok (by simp)
    · simp
  | cons field fields =>
    cases ss with
    | nil => exact .ok fun i field _ => .unset
    | cons s ss =>
      refine ((turnsOn_slotSize field s).bind_bind_pure (turnsOn_slotsSize fields ss) _).congr ?_
      constructor
      · intro conforms i declared found
        cases i with
        | zero =>
          cases found
          exact conforms.1
        | succ i => exact conforms.2 i declared found
      · exact fun conforms => ⟨conforms 0 field rfl, fun i => conforms (i + 1)⟩

theorem turnsOn_messageSize (table : FieldTable) (m : Message) :
    TurnsOn (messageSize schema table m) (m.Conforms schema Kind.Overlooks table) := by
  cases m with
  | mk type slots =>
    refine (turnsOn_slotsSize table.slots slots).congr ?_
    constructor
    · exact fun conforms => .slots conforms
    · intro conforms
      cases conforms with
      | slots conforms => exact conforms

end

end Encoding

section

variable {schema : Schema} {strict lax : Kind → Value → Prop}

mutual

theorem Kind.Admits.imp (h : ∀ k v, strict k v → lax k v) {k : Kind} {v : Value} :
    Kind.Admits schema strict k v → Kind.Admits schema lax k v
  | .scalar variant => .scalar variant
  | .message conforms => .message (Message.Conforms.imp h conforms)

theorem Kind.AdmitsSingle.imp (h : ∀ k v, strict k v → lax k v) {k : Kind} {v : Value} :
    Kind.AdmitsSingle schema strict k v → Kind.AdmitsSingle schema lax k v
  | .admits admits => .admits (Kind.Admits.imp h admits)
  | .overlooked overlooks => .overlooked (h k v overlooks)

theorem FieldSlot.Conforms.imp (h : ∀ k v, strict k v → lax k v) {field : FieldSlot} {s : Slot} :
    FieldSlot.Conforms schema strict field s → FieldSlot.Conforms schema lax field s
  | .unset => .unset
  | .single cardinality single => .single cardinality (Kind.AdmitsSingle.imp h single)
  | .repeated cardinality admits =>
    .repeated cardinality fun v hv => Kind.Admits.imp h (admits v hv)
  | .map cardinality keys values =>
    .map cardinality (fun e he => Kind.AdmitsSingle.imp h (keys e he))
      fun e he => Kind.AdmitsSingle.imp h (values e he)

theorem Message.Conforms.imp (h : ∀ k v, strict k v → lax k v) {table : FieldTable}
    {m : Message} : m.Conforms schema strict table → m.Conforms schema lax table
  | .slots conforms => .slots fun i field found => FieldSlot.Conforms.imp h (conforms i field found)

end

end

namespace Message

/-- A message is written, and sized, just if all its values are of the variants that their kinds
demand, in slots of the declared shapes, apart from empty strings that the encoder overlooks.
Otherwise it is refused. -/
theorem encode_eq_ok_iff_conforms (schema : Schema) (table : FieldTable) (m : Message) :
    ((∃ bytes, (m.encode schema table).result = .ok bytes) ↔
      m.Conforms schema Kind.Overlooks table) ∧
    ((∃ n, m.encodedSize schema table = .ok n) ↔ m.Conforms schema Kind.Overlooks table) ∧
    (∀ e, (m.encode schema table).result = .error e →
      e.Refusal ∧ m.encodedSize schema table = .error e) ∧
    (m.Conforms schema (fun _ _ => False) table →
      ∃ bytes, (m.encode schema table).result = .ok bytes) := by
  have turns := @Encoding.turnsOn_messageSize schema table m
  have sized : ∀ n, m.encodedSize schema table = .ok n ↔
      ∃ bytes, (m.encode schema table).result = .ok bytes ∧ bytes.length = n := by
    intro n
    rw [← length_encode, Result.map_eq_ok_iff]
  have written : (∃ bytes, (m.encode schema table).result = .ok bytes) ↔
      m.Conforms schema Kind.Overlooks table := by
    rw [← turns.accepts]
    constructor
    · rintro ⟨bytes, value⟩
      exact ⟨bytes.length, (sized _).2 ⟨bytes, value, rfl⟩⟩
    · rintro ⟨n, value⟩
      obtain ⟨bytes, encoded, -⟩ := (sized n).1 value
      exact ⟨bytes, encoded⟩
  refine ⟨written, turns.accepts, fun e failed => ?_, fun conforms => ?_⟩
  · have size : m.encodedSize schema table = .error e := by
      rw [← length_encode, Result.map_eq_error_iff]
      exact failed
    exact ⟨turns.refuses e size, size⟩
  · exact written.2 (conforms.imp fun _ _ h => h.elim)

/-- An empty string where a child belongs is not refused, it is gone. -/
theorem encode_overlooked :
    let m : Message := ⟨0, [.single (.scalar (.string ""))]⟩
    (m.encode Sample.schema (Sample.schema.table 0)).result = .ok [] ∧
      m.encodedSize Sample.schema (Sample.schema.table 0) = .ok 0 ∧
      ¬ m.Conforms Sample.schema (fun _ _ => False) (Sample.schema.table 0) := by
  intro m
  refine ⟨by decide +kernel, by decide +kernel, fun conforms => ?_⟩
  cases conforms with
  | slots conforms =>
    have child := conforms 0 ⟨⟨3, by decide⟩, 0, "child", .single, .message 0⟩ rfl
    cases child with
    | single _ single =>
      cases single with
      | admits admits => cases admits
      | overlooked overlooks => exact overlooks

end Message

end Protowire
