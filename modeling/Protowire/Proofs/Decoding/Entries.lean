import Protowire.Proofs.Decoding.Repetition
import Protowire.Proofs.Decoding.Taken
import Protowire.Proofs.Message.LastWrite

set_option autoImplicit false

/-!
# Reading map entries

The last write wins twice: inside an entry the last key and the last value count, and among entries
the last one with a key. What the bytes of a key or a value looked like makes no difference.
-/

namespace Protowire

namespace Half

/-- The keys among the halves that were found, in the order in which they stand. -/
def keys (found : List (Option Half)) : List Value :=
  found.filterMap fun half => match half with | some (key v) => some v | _ => none

def values (found : List (Option Half)) : List Value :=
  found.filterMap fun half => match half with | some (value v) => some v | _ => none

theorem lastKey_eq (missing : Value) (found : List (Option Half)) :
    lastKey missing found = (keys found).getLast?.getD missing := by
  induction found generalizing missing with
  | nil => rfl
  | cons half found ih =>
    rcases half with _ | v | v
    · exact ih missing
    · have later : keys (some (key v) :: found) = v :: keys found := rfl
      rw [later, List.getLast?_cons]
      exact ih v
    · exact ih missing

theorem lastValue_eq (missing : Value) (found : List (Option Half)) :
    lastValue missing found = (values found).getLast?.getD missing := by
  induction found generalizing missing with
  | nil => rfl
  | cons half found ih =>
    rcases half with _ | v | v
    · exact ih missing
    · exact ih missing
    · have later : values (some (value v) :: found) = v :: values found := rfl
      rw [later, List.getLast?_cons]
      exact ih v

end Half

namespace Grammar

variable (schema : Schema) (language : Nat → Bytes → Message → Prop)

/-- The last key and the last value that were found, or the default of the kind where there is
none. -/
def entryOf (keyKind kind : Kind) (found : List (Option Half)) : Entry :=
  ⟨(Half.keys found).getLast?.getD (keyKind.default schema),
    (Half.values found).getLast?.getD (kind.default schema)⟩

/-- A record of a map field, and the entry it contributes. Inside it may stand keys, values and
records of any other kind, in any order. -/
def EntryRecord (field : FieldSlot) (keyKind : Kind) (bytes : Bytes) (e : Entry) : Prop :=
  ∃ head payload content found, bytes = head ++ payload ∧
    Tag.Spells head ⟨field.number, .delimited⟩ ∧ Varint.Delimits payload content ∧
    Sequence (Tagged (HalfBody language keyKind field.kind)) content found ∧
    e = entryOf schema keyKind field.kind found

variable {schema language}

theorem EntryRecord.record {table : FieldTable} {field : FieldSlot} {keyKind : Kind}
    {bytes : Bytes} {e : Entry} (declared : field ∈ table.slots)
    (cardinality : field.cardinality = .map keyKind)
    (h : EntryRecord schema language field keyKind bytes e) :
    Record schema language table bytes (some (.insert field.index e.key e.value)) := by
  obtain ⟨head, payload, content, found, rfl, spelled, framed, halves, rfl⟩ := h
  rw [entryOf, ← Half.lastKey_eq, ← Half.lastValue_eq]
  exact record_of_accepted spelled declared rfl (.entry cardinality)
    ⟨content, framed, found, halves, rfl⟩

end Grammar

namespace Message

open Grammar

variable {schema : Schema} {options : DecodeOptions} {m : Message} {field : FieldSlot}

/-- Entries that are inserted one after the other. -/
theorem foldl_insert {i : Nat} (stored : m.put i (.map (m.slot i).entries) = m)
    (es : List Entry) :
    (es.map fun e => some (Update.insert i e.key e.value)).foldl apply m =
      m.put i (.map (Entry.insertAll (m.slot i).entries es)) := by
  induction es generalizing m with
  | nil => exact stored.symm
  | cons e es ih =>
    have later : ((m.apply (some (.insert i e.key e.value))).slot i).entries =
        Entry.insert e.key e.value (m.slot i).entries := by
      rw [apply, slot_put]
      rfl
    rw [List.map_cons, List.foldl_cons, ih (by rw [later, apply, put_put]), later, apply, put_put]
    rfl

/-- Every contributed key is of the kind of keys, be it read or a default. -/
theorem keys_of_records {type : Nat} {keyKind : Kind}
    (declared : field ∈ (schema.table type).slots) (cardinality : field.cardinality = .map keyKind)
    {bytes : Bytes} {contributed : List Entry}
    (records : Sequence
      (EntryRecord schema (Nested schema options.recursionLimit.toNat) field keyKind)
      bytes contributed) :
    ∀ e ∈ contributed, keyKind.Holds schema e.key := by
  induction records with
  | nil => simp
  | cons first others ih =>
    refine List.forall_mem_cons.2 ⟨?_, ih⟩
    obtain ⟨field', keyKind', place, cardinality', hk, -⟩ :=
      Decoding.suits_of_record (first.record declared cardinality)
    have same := (schema.built_table type).consistent.getElem?_index declared
    obtain rfl := Option.some.inj (same.symm.trans place)
    rw [cardinality, Cardinality.map.injEq] at cardinality'
    exact cardinality' ▸ hk

/-- Entry records decoded into a map. Each contributes one entry, the last one that is contributed
for a key is what the map has for it, and for other keys it has what it had. No other slot
changes. -/
theorem merge_entries (schema : Schema) (options : DecodeOptions) (m : Message)
    (fits : m.Fits schema (schema.table m.type)) {field : FieldSlot} {keyKind : Kind}
    (declared : field ∈ (schema.table m.type).slots)
    (cardinality : field.cardinality = .map keyKind) {bytes : Bytes} {contributed : List Entry}
    (records : Sequence
      (EntryRecord schema (Nested schema options.recursionLimit.toNat) field keyKind)
      bytes contributed) :
    let decoded := m.merge schema options .full (schema.table m.type) bytes
    let old := (m.slot field.index).entries
    decoded.result = .ok () ∧ ∃ new, decoded.message = m.put field.index (.map new) ∧
      decoded.message.slot field.index = .map new ∧
      (∀ i, i ≠ field.index → decoded.message.slot i = m.slot i) ∧
      Entry.Ascending new ∧
      (∀ key, (∃ e ∈ new, e.key = key) ↔
        (∃ e ∈ old, e.key = key) ∨ ∃ e ∈ contributed, e.key = key) ∧
      ∀ e, e ∈ new ↔
        Entry.Latest contributed e ∨ e ∈ old ∧ ∀ later ∈ contributed, later.key ≠ e.key := by
  intro decoded old
  have consistent := (schema.built_table m.type).consistent
  have place := consistent.getElem?_index declared
  obtain ⟨keys, -, sorted⟩ := entries_of_holds (holds_slot fits place) cardinality
  have ranked : Value.Ranked (keyKind.Holds schema) :=
    Kind.ranked_of_isMapKey (consistent.keys declared cardinality)
  have newKeys : ∀ e ∈ contributed, keyKind.Holds schema e.key :=
    keys_of_records declared cardinality records
  have updates := records.map (EntryRecord.record declared cardinality)
  obtain ⟨log, made⟩ : ∃ log, decoded =
      ⟨⟨m.put field.index (.map (Entry.insertAll old contributed)), .ok ()⟩, log⟩ := by
    rw [← foldl_insert (put_entries fits place cardinality)]
    exact merge_records rfl updates
  rw [made]
  exact ⟨rfl, _, rfl, slot_put .., fun _ => slot_put_of_ne, Entry.ascending_insertAll sorted,
    fun _ => Entry.exists_key_insertAll_iff ranked sorted keys newKeys,
    fun _ => Entry.mem_insertAll_iff ranked sorted keys newKeys⟩

end Message

namespace Sample

/-- A node with a weight. -/
def weighted : Message := (roster.fresh 0).apply (some (.append 2 [.scalar (.i32 1)]))

theorem nested_weighted : Grammar.Nested roster 100 0 [0x02, 0x10, 0x02] weighted := by
  have declared : ⟨⟨2, by decide⟩, 2, "weights", .repeated, .scalar .sint32⟩ ∈
      (roster.table (roster.fresh 0).type).slots := by decide
  have weight : Grammar.Element (Grammar.Nested roster 99) (.scalar .sint32) [0x02]
      (.scalar (.i32 1)) :=
    .scalar ⟨.varint 2, Varint.spells_encode 2, rfl⟩
  have record : Grammar.Record roster (Grammar.Nested roster 99)
      (roster.table (roster.fresh 0).type) [0x10, 0x02] (some (.append 2 [.scalar (.i32 1)])) :=
    Grammar.record_of_accepted (Tag.spells_encode ⟨.value, .varint⟩) declared rfl (.element rfl)
      ⟨_, weight, rfl⟩
  exact ⟨[0x10, 0x02], @Varint.delimits_delimit [0x10, 0x02] (by decide), _, .cons record .nil, rfl⟩

/-- A roster with an entry. -/
def staffed : Message :=
  (roster.fresh 1).put 1 (.map [⟨.scalar (.u32 7), .message (roster.fresh 0)⟩])

theorem staffed_fits : staffed.Fits roster (roster.table staffed.type) := by
  have key : (Kind.scalar .uint32).Holds roster (.scalar (.u32 7)) := .scalar rfl
  have node : (Kind.message 0).Holds roster (.message (roster.fresh 0)) :=
    .message (m := roster.fresh 0) (Message.fits_fresh roster 0)
  have declared : (roster.table 1).slots[1]? =
      some ⟨⟨2, by decide⟩, 1, "nodes", .map (.scalar .uint32), .message 0⟩ := by decide
  refine Message.fits_put (Message.fits_fresh roster 1) declared (.map rfl ?_ ?_ ?_)
  · simpa using key
  · simpa using node
  · simp

end Sample

namespace Message

open Grammar

/-- A value in front of its key, which is spelled with a byte too many, with a record between them
that is neither; then the same key behind another one, without a value; then nothing at all. -/
theorem merge_entries_staffed :
    let nodes : FieldSlot := ⟨⟨2, by decide⟩, 1, "nodes", .map (.scalar .uint32), .message 0⟩
    let bytes : Bytes := [0x12, 0x09, 0x12, 0x02, 0x10, 0x02, 0x18, 0x01, 0x08, 0x85, 0x00, 0x12,
      0x04, 0x08, 0x07, 0x08, 0x05, 0x12, 0x00]
    let contributed : List Entry := [⟨.scalar (.u32 5), .message Sample.weighted⟩,
      ⟨.scalar (.u32 5), .message (Sample.roster.fresh 0)⟩,
      ⟨.scalar (.u32 0), .message (Sample.roster.fresh 0)⟩]
    Sample.staffed.Fits Sample.roster (Sample.roster.table Sample.staffed.type) ∧
      nodes ∈ (Sample.roster.table Sample.staffed.type).slots ∧
      Sequence (EntryRecord Sample.roster (Nested Sample.roster 100) nodes (.scalar .uint32))
        bytes contributed ∧
      let decoded := Sample.staffed.merge Sample.roster {} .full
        (Sample.roster.table Sample.staffed.type) bytes
      let old := (Sample.staffed.slot 1).entries
      decoded.result = .ok () ∧ ∃ new, decoded.message = Sample.staffed.put 1 (.map new) ∧
        decoded.message.slot 1 = .map new ∧
        (∀ i, i ≠ 1 → decoded.message.slot i = Sample.staffed.slot i) ∧
        Entry.Ascending new ∧
        (∀ key, (∃ e ∈ new, e.key = key) ↔
          (∃ e ∈ old, e.key = key) ∨ ∃ e ∈ contributed, e.key = key) ∧
        ∀ e, e ∈ new ↔
          Entry.Latest contributed e ∨ e ∈ old ∧ ∀ later ∈ contributed, later.key ≠ e.key := by
  intro nodes bytes contributed
  let language := Nested Sample.roster 100
  have declared : nodes ∈ (Sample.roster.table Sample.staffed.type).slots := by decide
  have key (v : UInt32) {payload : Bytes} (spelled : Varint.Spells payload v.toUInt64) :
      Tagged (HalfBody language (.scalar .uint32) (.message 0)) ([0x08] ++ payload)
        (some (.key (.scalar (.u32 v)))) := by
    have meaning : ScalarType.uint32.interpret? (.varint v.toUInt64) = some (.u32 v) := by
      simp [ScalarType.interpret?]
    exact ⟨[0x08], payload, ⟨.key, .varint⟩, rfl, Tag.spells_encode ⟨.key, .varint⟩,
      .key rfl ⟨_, .scalar ⟨.varint v.toUInt64, spelled, meaning⟩, rfl⟩⟩
  have value : Tagged (HalfBody language (.scalar .uint32) (.message 0)) [0x12, 0x02, 0x10, 0x02]
      (some (.value (.message Sample.weighted))) :=
    ⟨[0x12], [0x02, 0x10, 0x02], ⟨.value, .delimited⟩, rfl,
      Tag.spells_encode ⟨.value, .delimited⟩,
      .value rfl ⟨_, .message ⟨_, Sample.nested_weighted, rfl⟩, rfl⟩⟩
  let other : Tag := ⟨⟨3, by decide⟩, .varint⟩
  have stray : Tagged (HalfBody language (.scalar .uint32) (.message 0)) [0x18, 0x01] none :=
    ⟨other.encode, [0x01], other, by decide, Tag.spells_encode other,
      .stray (by decide) (by decide) ⟨.varint 1, rfl, Varint.spells_encode 1⟩⟩
  have long : Varint.Spells [0x85, 0x00] (5 : UInt32).toUInt64 :=
    ⟨⟨[0x85], 0x00, rfl, by decide, by simp, by decide⟩, rfl⟩
  have entry (content : Bytes) {found : List (Option Half)} (small : content.length < 2 ^ 64)
      (halves : Sequence (Tagged (HalfBody language (.scalar .uint32) (.message 0)))
        content found) :
      EntryRecord Sample.roster language nodes (.scalar .uint32) ([0x12] ++ Varint.delimit content)
        (entryOf Sample.roster (.scalar .uint32) (.message 0) found) :=
    ⟨[0x12], Varint.delimit content, content, found, rfl, Tag.spells_encode ⟨.value, .delimited⟩,
      Varint.delimits_delimit small, halves, rfl⟩
  have first := entry [0x12, 0x02, 0x10, 0x02, 0x18, 0x01, 0x08, 0x85, 0x00] (by decide)
    (.cons value (.cons stray (.cons (key 5 long) .nil)))
  have second := entry [0x08, 0x07, 0x08, 0x05] (by decide)
    (.cons (key 7 (Varint.spells_encode 7)) (.cons (key 5 (Varint.spells_encode 5)) .nil))
  have third := entry [] (by decide) .nil
  have records : Sequence (EntryRecord Sample.roster language nodes (.scalar .uint32)) bytes
      contributed := .cons first (.cons second (.cons third .nil))
  exact ⟨Sample.staffed_fits, declared, records,
    merge_entries Sample.roster {} Sample.staffed Sample.staffed_fits declared rfl records⟩

end Message

end Protowire
