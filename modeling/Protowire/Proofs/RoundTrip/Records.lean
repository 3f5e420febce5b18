import Protowire.Decoding.Record
import Protowire.Proofs.Encoding.Reference
import Protowire.Proofs.Message.Update

set_option autoImplicit false

/-!
# The records of a written message

The reference encoding of a message is a string of records, each of which makes one update. All
updates together turn a fresh message into the one that was written.
-/

namespace Protowire

/-- How deep the values that the update brings are nested. -/
def Update.depth : Update → Nat
  | .set _ v => v.depth
  | .append _ vs => Value.maxDepth vs
  | .insert _ key value => max key.depth value.depth

def Half.depth : Half → Nat
  | .key v => v.depth
  | .value v => v.depth

namespace Reference

variable (schema : Schema)

/-- The bytes of each half of an entry that is written. -/
def halves (keyKind kind : Kind) : Entry → List (Bytes × Half)
  | ⟨key, value⟩ =>
    (if keyKind.isDefault key then []
      else [((Tag.mk .key keyKind.wireType).encode ++ element schema keyKind key,
        .key key)]) ++
    (if kind.isDefault value then []
      else [((Tag.mk .value kind.wireType).encode ++ element schema kind value,
        .value value)])

/-- The bytes of each record of a slot, and the update that it makes. -/
def records (field : FieldSlot) : Slot → List (Bytes × Update)
  | .unset => []
  | .single v =>
    if field.kind.isDefault v then []
    else [((Tag.mk field.number field.kind.wireType).encode ++ element schema field.kind v,
      .set field.index v)]
  | .repeated vs =>
    let tag := (Tag.mk field.number .delimited).encode
    if vs.isEmpty then []
    else if field.kind.isPackable then
      [(tag ++ Varint.delimit (elements schema [] field.kind vs), .append field.index vs)]
    else vs.map fun v => (tag ++ element schema field.kind v, .append field.index [v])
  | .map es =>
    match field.cardinality with
    | .map keyKind => es.map fun e =>
      ((Tag.mk field.number .delimited).encode ++
        Varint.delimit (entry schema keyKind field.kind e), .insert field.index e.key e.value)
    | _ => []

/-- The records of all slots. -/
def allRecords : List FieldSlot → List Slot → List (Bytes × Update)
  | field :: fields, s :: ss => records schema field s ++ allRecords fields ss
  | _, _ => []

theorem elements_eq_flatMap (lead : Bytes) (k : Kind) (vs : List Value) :
    elements schema lead k vs = vs.flatMap fun v => lead ++ element schema k v := by
  induction vs with
  | nil => rfl
  | cons v vs ih => rw [elements, ih, List.flatMap_cons]

theorem entries_eq_flatMap (number : FieldNumber) (keyKind kind : Kind) (es : List Entry) :
    entries schema number keyKind kind es = es.flatMap fun e =>
      (Tag.mk number .delimited).encode ++ Varint.delimit (entry schema keyKind kind e) := by
  induction es with
  | nil => rfl
  | cons e es ih => rw [entries, ih, List.flatMap_cons]

theorem flatMap_halves (keyKind kind : Kind) (e : Entry) :
    (halves schema keyKind kind e).flatMap Prod.fst = entry schema keyKind kind e := by
  obtain ⟨key, value⟩ := e
  rw [entry, halves, List.flatMap_append]
  congr 1
  · unfold single
    split <;> simp
  · unfold single
    split <;> simp

theorem flatMap_records (field : FieldSlot) (s : Slot) :
    (records schema field s).flatMap Prod.fst = slot schema field s := by
  cases s with
  | unset => rfl
  | single v =>
    simp only [records, slot, single]
    split <;> simp
  | repeated vs =>
    simp only [records, slot]
    split
    · rfl
    · split
      · simp
      · rw [elements_eq_flatMap, List.flatMap_map]
  | map es =>
    cases h : field.cardinality with
    | map keyKind => simp only [records, slot, h, entries_eq_flatMap, List.flatMap_map]
    | _ => simp only [records, slot, h, List.flatMap_nil]

theorem flatMap_allRecords (fields : List FieldSlot) (ss : List Slot) :
    (allRecords schema fields ss).flatMap Prod.fst = slots schema fields ss := by
  induction fields generalizing ss with
  | nil => simp [allRecords, slots]
  | cons field fields ih =>
    cases ss with
    | nil => simp [allRecords, slots]
    | cons s ss => rw [allRecords, slots, List.flatMap_append, flatMap_records, ih]

end Reference

theorem Value.maxDepth_le_iff {vs : List Value} {n : Nat} :
    maxDepth vs ≤ n ↔ ∀ v ∈ vs, v.depth ≤ n := by
  induction vs with
  | nil => simp [maxDepth]
  | cons v vs ih => rw [maxDepth, Nat.max_le, ih, List.forall_mem_cons]

theorem Entry.maxDepth_le_iff {es : List Entry} {n : Nat} :
    maxDepth es ≤ n ↔ ∀ e ∈ es, e.depth ≤ n := by
  induction es with
  | nil => simp [maxDepth]
  | cons e es ih => rw [maxDepth, Nat.max_le, ih, List.forall_mem_cons]

theorem Slot.maxDepth_le_iff {ss : List Slot} {n : Nat} :
    maxDepth ss ≤ n ↔ ∀ s ∈ ss, s.depth ≤ n := by
  induction ss with
  | nil => simp [maxDepth]
  | cons s ss ih => rw [maxDepth, Nat.max_le, ih, List.forall_mem_cons]

theorem Message.depth_le_iff {m : Message} {n : Nat} :
    m.depth ≤ n ↔ ∀ s ∈ m.slots, s.depth ≤ n := by
  obtain ⟨type, slots⟩ := m
  rw [depth, Slot.maxDepth_le_iff]

theorem Kind.eq_default {schema : Schema} {k : Kind} {v : Value} (h : k.isDefault v = true) :
    v = k.default schema := by
  cases k with
  | scalar t =>
    cases v with
    | scalar s =>
      obtain rfl : s = t.default := by simpa [isDefault] using h
      rfl
    | message m => cases h
  | message type => cases v <;> cases h

theorem Kind.depth_eq_zero {k : Kind} {v : Value} (h : k.isDefault v = true) : v.depth = 0 := by
  cases v with
  | scalar s => simp [Value.depth]
  | message m => cases k <;> cases h

/-- Only scalars go back to back. -/
theorem Kind.exists_scalar_of_isPackable (k : Kind) (h : k.isPackable = true) :
    ∃ t, k = .scalar t := by
  cases k with
  | scalar t => exact ⟨t, rfl⟩
  | message type => cases h

namespace Reference

variable {schema : Schema} {n : Nat}

theorem depth_halves {keyKind kind : Kind} {e : Entry} :
    (∀ p ∈ halves schema keyKind kind e, p.2.depth ≤ n) ↔ e.depth ≤ n := by
  obtain ⟨key, value⟩ := e
  have omittedKey := @Kind.depth_eq_zero keyKind key
  have omittedValue := @Kind.depth_eq_zero kind value
  rw [halves, List.forall_mem_append, Entry.depth, Nat.max_le]
  refine and_congr ?_ ?_
  · split
    · next omitted => simp [omittedKey omitted]
    · simp [Half.depth]
  · split
    · next omitted => simp [omittedValue omitted]
    · simp [Half.depth]

/-- A half that was left out has its default back. -/
theorem last_halves {keyKind kind : Kind} (e : Entry) :
    let found := (halves schema keyKind kind e).map fun p => some p.2
    Half.lastKey (keyKind.default schema) found = e.key ∧
      Half.lastValue (kind.default schema) found = e.value := by
  obtain ⟨key, value⟩ := e
  have missingKey := @Kind.eq_default schema keyKind key
  have missingValue := @Kind.eq_default schema kind value
  simp only [halves]
  split
  · next omittedKey =>
    split
    · next omittedValue => exact ⟨(missingKey omittedKey).symm, (missingValue omittedValue).symm⟩
    · exact ⟨(missingKey omittedKey).symm, rfl⟩
  · split
    · next omittedValue => exact ⟨rfl, (missingValue omittedValue).symm⟩
    · exact ⟨rfl, rfl⟩

theorem depth_records {field : FieldSlot} {s : Slot} (h : field.Holds schema s) :
    (∀ p ∈ records schema field s, p.2.depth ≤ n) ↔ s.depth ≤ n := by
  cases h with
  | unset => simp [records, Slot.depth]
  | @single _ v cardinality value =>
    by_cases omitted : field.kind.isDefault v = true
    · simp [records, omitted, Slot.depth, Kind.depth_eq_zero omitted]
    · simp [records, omitted, Slot.depth, Update.depth]
  | @repeated _ vs cardinality values =>
    rw [Slot.depth]
    by_cases empty : vs.isEmpty = true
    · obtain rfl := List.isEmpty_iff.1 empty
      simp [records, Value.maxDepth]
    · by_cases packed : field.kind.isPackable = true
      · simp [records, empty, packed, Update.depth]
      · simp [records, empty, packed, Update.depth, Value.maxDepth, Value.maxDepth_le_iff]
  | @map _ keyKind es cardinality keys values sorted =>
    simp only [records, cardinality, Slot.depth, Entry.maxDepth_le_iff, List.forall_mem_map]
    refine forall₂_congr fun e _ => ?_
    obtain ⟨key, value⟩ := e
    rw [Entry.depth, Update.depth]

theorem depth_allRecords {fields : List FieldSlot} {ss : List Slot}
    (h : List.Forall₂ (FieldSlot.Holds schema) fields ss) :
    (∀ p ∈ allRecords schema fields ss, p.2.depth ≤ n) ↔ Slot.maxDepth ss ≤ n := by
  induction h with
  | nil => simp [allRecords, Slot.maxDepth]
  | cons hs hss ih =>
    rw [allRecords, List.forall_mem_append, depth_records hs, ih, Slot.maxDepth, Nat.max_le]

end Reference

namespace Message

variable {schema : Schema} {type : Nat} {before behind : List Slot} {s s' : Slot}

theorem put_middle :
    (⟨type, before ++ s :: behind⟩ : Message).put before.length s' =
      ⟨type, before ++ s' :: behind⟩ := by
  rw [put, if_pos (by simp)]
  simp

theorem slot_middle : (⟨type, before ++ s :: behind⟩ : Message).slot before.length = s := by
  simp [slot]

theorem foldl_push_middle (vs ws : List Value) :
    ws.foldl (fun m v => m.push before.length v)
        (⟨type, before ++ .repeated vs :: behind⟩ : Message) =
      ⟨type, before ++ .repeated (vs ++ ws) :: behind⟩ := by
  induction ws generalizing vs with
  | nil => simp
  | cons w ws ih =>
    rw [List.foldl_cons, push, slot_middle, put_middle]
    simp only [Slot.elements]
    rw [ih, List.append_assoc]
    rfl

/-- Entries whose keys ascend are inserted one behind the other. -/
theorem foldl_insert_middle (done es : List Entry) (sorted : Entry.Ascending (done ++ es)) :
    (es.map fun e => some (Update.insert before.length e.key e.value)).foldl apply
        (⟨type, before ++ .map done :: behind⟩ : Message) =
      ⟨type, before ++ .map (done ++ es) :: behind⟩ := by
  induction es generalizing done with
  | nil => simp
  | cons e es ih =>
    obtain ⟨key, value⟩ := e
    have last : ∀ d ∈ done, d.key.rank < key.rank := by
      intro d hd
      exact (List.pairwise_append.1 sorted).2.2 d hd ⟨key, value⟩ List.mem_cons_self
    rw [List.append_cons] at sorted
    rw [List.map_cons, List.foldl_cons, apply, slot_middle, put_middle]
    simp only [Slot.entries]
    rw [Entry.insert_of_forall_lt last, ih _ sorted, ← List.append_cons]

/-- The records of a slot fill it. -/
theorem foldl_records {field : FieldSlot} (h : field.Holds schema s)
    (index : field.index = before.length) :
    ((Reference.records schema field s).map fun p => some p.2).foldl apply
        ⟨type, before ++ Schema.freshSlot field :: behind⟩ =
      ⟨type, before ++ s :: behind⟩ := by
  cases h with
  | unset cardinality kind => simp [Reference.records, Schema.freshSlot, cardinality, kind]
  | @single _ v cardinality value =>
    by_cases omitted : field.kind.isDefault v = true
    · obtain rfl := @Kind.eq_default schema _ _ omitted
      cases kind : field.kind with
      | scalar t =>
        simp [Reference.records, Schema.freshSlot, cardinality, kind, Kind.default, Kind.isDefault]
      | message type =>
        rw [kind] at omitted
        cases omitted
    · simp [Reference.records, omitted, apply, index, put_middle]
  | @repeated _ vs cardinality values =>
    have fresh : Schema.freshSlot field = .repeated [] := by simp [Schema.freshSlot, cardinality]
    have filled := @foldl_push_middle type before behind [] vs
    rw [fresh]
    by_cases empty : vs.isEmpty = true
    · obtain rfl := List.isEmpty_iff.1 empty
      rfl
    · by_cases packed : field.kind.isPackable = true
      · simp only [Reference.records, if_neg empty, if_pos packed, index]
        exact filled
      · simp only [Reference.records, if_neg empty, if_neg packed, index, List.map_map,
          List.foldl_map]
        exact filled
  | @map _ keyKind es cardinality keys values sorted =>
    have fresh : Schema.freshSlot field = .map [] := by simp [Schema.freshSlot, cardinality]
    rw [fresh]
    simp only [Reference.records, cardinality, index, List.map_map]
    exact foldl_insert_middle [] es sorted

theorem foldl_allRecords {fields : List FieldSlot} {ss : List Slot}
    (h : List.Forall₂ (FieldSlot.Holds schema) fields ss)
    (index : ∀ i field, fields[i]? = some field → field.index = before.length + i) :
    ((Reference.allRecords schema fields ss).map fun p => some p.2).foldl apply
        ⟨type, before ++ fields.map Schema.freshSlot⟩ =
      ⟨type, before ++ ss⟩ := by
  induction h generalizing before with
  | nil => simp [Reference.allRecords]
  | @cons field s fields ss hs hss ih =>
    have first := index 0 field rfl
    have others : ∀ i f, fields[i]? = some f → f.index = (before ++ [s]).length + i := by
      intro i f hf
      have place := index (i + 1) f hf
      rw [List.length_append, List.length_singleton]
      omega
    rw [Reference.allRecords, List.map_append, List.foldl_append, List.map_cons,
      foldl_records hs first, List.append_cons, ih others, ← List.append_cons]

end Message

end Protowire
