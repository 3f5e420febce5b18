import Protowire.Proofs.Encoding.Size

set_option autoImplicit false

/-!
# The parts of what is written

Whatever is written is put together from what was written for its parts, and each length in it is
that of the bytes behind. Nothing is asked of the message but that it was written.
-/

namespace Protowire.Encoding

variable {schema : Schema}

theorem writeSingle_eq_ok {number : FieldNumber} {k : Kind} {v : Value} {element : Logged Bytes}
    {bytes : Bytes} (h : (writeSingle number k v element).result = .ok bytes) :
    bytes = [] ∨ ∃ content, element.result = .ok content ∧
      bytes = (Tag.mk number k.wireType).encode ++ content := by
  simp only [writeSingle, Logged.result_bind, Logged.result_liftM] at h
  obtain ⟨omitted, -, h⟩ := Result.bind_eq_ok_iff.1 h
  split at h
  · left
    simpa [Logged.emit, eq_comm] using h
  · right
    rw [Logged.result_bind] at h
    obtain ⟨content, written, h⟩ := Result.bind_eq_ok_iff.1 h
    exact ⟨content, written, (Except.ok.inj h).symm⟩

/-- What was sized in advance is as long as what is written. -/
theorem eq_length_of_sized {size : Except Error Nat} {x : Logged Bytes} {n : Nat}
    {content : Bytes} (foretold : List.length <$> x.result = size) (sized : size = .ok n)
    (written : x.result = .ok content) : n = content.length := by
  rw [← foretold, written] at sized
  exact (Except.ok.inj sized).symm

theorem writeElement_scalar_eq_ok {k : Kind} {s : Scalar} {bytes : Bytes}
    (h : (writeElement schema k (.scalar s)).result = .ok bytes) :
    ∃ t p, k = .scalar t ∧ t.payload? s = some p ∧ bytes = p.encode := by
  simp only [writeElement, Logged.result_bind, Logged.result_liftM] at h
  obtain ⟨p, payload, h⟩ := Result.bind_eq_ok_iff.1 h
  obtain rfl := Except.ok.inj h
  cases k with
  | message type => cases payload
  | scalar t =>
    refine ⟨t, p, rfl, ?_, rfl⟩
    simp only [Kind.payload] at payload
    split at payload
    · next found => rw [found, Except.ok.inj payload]
    · cases payload

theorem writeElement_message_eq_ok {k : Kind} {m : Message} {bytes : Bytes}
    (h : (writeElement schema k (.message m)).result = .ok bytes) :
    ∃ type content, k = .message type ∧
      (writeMessage schema (schema.table type) m).result = .ok content ∧
      bytes = Varint.delimit content := by
  cases k with
  | scalar t => cases h
  | message type =>
    simp only [writeElement, Logged.result_bind, Logged.result_liftM] at h
    obtain ⟨n, sized, h⟩ := Result.bind_eq_ok_iff.1 h
    obtain ⟨content, written, h⟩ := Result.bind_eq_ok_iff.1 h
    obtain rfl := eq_length_of_sized (length_writeMessage schema _ m) sized written
    exact ⟨type, content, rfl, written, (Except.ok.inj h).symm⟩

theorem writeElements_cons_eq_ok {lead : Bytes} {k : Kind} {v : Value} {vs : List Value}
    {bytes : Bytes} (h : (writeElements schema lead k (v :: vs)).result = .ok bytes) :
    ∃ payload others, (writeElement schema k v).result = .ok payload ∧
      (writeElements schema lead k vs).result = .ok others ∧
      bytes = (lead ++ payload) ++ others := by
  simp only [writeElements, Logged.result_bind] at h
  obtain ⟨payload, first, h⟩ := Result.bind_eq_ok_iff.1 h
  obtain ⟨others, later, h⟩ := Result.bind_eq_ok_iff.1 h
  exact ⟨payload, others, first, later, (Except.ok.inj h).symm⟩

theorem writeEntry_eq_ok {keyKind kind : Kind} {key value : Value} {bytes : Bytes}
    (h : (writeEntry schema keyKind kind ⟨key, value⟩).result = .ok bytes) :
    ∃ first second,
      (writeSingle .key keyKind key (writeElement schema keyKind key)).result = .ok first ∧
      (writeSingle .value kind value (writeElement schema kind value)).result = .ok second ∧
      bytes = first ++ second := by
  simp only [writeEntry, Logged.result_bind] at h
  obtain ⟨first, keyed, h⟩ := Result.bind_eq_ok_iff.1 h
  obtain ⟨second, valued, h⟩ := Result.bind_eq_ok_iff.1 h
  exact ⟨first, second, keyed, valued, (Except.ok.inj h).symm⟩

theorem writeEntries_cons_eq_ok {number : FieldNumber} {keyKind kind : Kind} {e : Entry}
    {es : List Entry} {bytes : Bytes}
    (h : (writeEntries schema number keyKind kind (e :: es)).result = .ok bytes) :
    ∃ content others, (writeEntry schema keyKind kind e).result = .ok content ∧
      (writeEntries schema number keyKind kind es).result = .ok others ∧
      bytes = ((Tag.mk number .delimited).encode ++ Varint.delimit content) ++ others := by
  simp only [writeEntries, Logged.result_bind, Logged.result_liftM] at h
  obtain ⟨n, sized, h⟩ := Result.bind_eq_ok_iff.1 h
  obtain ⟨content, first, h⟩ := Result.bind_eq_ok_iff.1 h
  obtain ⟨others, later, h⟩ := Result.bind_eq_ok_iff.1 h
  obtain rfl := eq_length_of_sized (length_writeEntry schema keyKind kind e) sized first
  refine ⟨content, others, first, later, ?_⟩
  rw [← Except.ok.inj h, Varint.delimit, List.append_assoc (Tag.encode _)]

theorem writeSlots_cons_eq_ok {field : FieldSlot} {fields : List FieldSlot} {slot : Slot}
    {slots : List Slot} {bytes : Bytes}
    (h : (writeSlots schema (field :: fields) (slot :: slots)).result = .ok bytes) :
    ∃ first others, (writeSlot schema field slot).result = .ok first ∧
      (writeSlots schema fields slots).result = .ok others ∧ bytes = first ++ others := by
  simp only [writeSlots, Logged.result_bind] at h
  obtain ⟨first, here, h⟩ := Result.bind_eq_ok_iff.1 h
  obtain ⟨others, later, h⟩ := Result.bind_eq_ok_iff.1 h
  exact ⟨first, others, here, later, (Except.ok.inj h).symm⟩

/-- A list slot that is written is empty, packed behind one tag or a tag in front of each. -/
theorem writeSlot_repeated_eq_ok {field : FieldSlot} {vs : List Value} {bytes : Bytes}
    (h : (writeSlot schema field (.repeated vs)).result = .ok bytes) :
    field.cardinality = .repeated ∧
      (bytes = [] ∨
        field.kind.isPackable = true ∧
          (∃ content, bytes = (Tag.mk field.number .delimited).encode ++ Varint.delimit content) ∨
        field.kind.isPackable = false ∧
          (writeElements schema (Tag.mk field.number .delimited).encode field.kind vs).result =
            .ok bytes) := by
  simp only [writeSlot] at h
  split at h
  · next cardinality =>
    refine ⟨cardinality, ?_⟩
    split at h
    · exact .inl (Except.ok.inj h).symm
    · split at h
      · next packable =>
        simp only [Logged.result_bind, Logged.result_liftM] at h
        obtain ⟨n, sized, h⟩ := Result.bind_eq_ok_iff.1 h
        obtain ⟨content, written, h⟩ := Result.bind_eq_ok_iff.1 h
        obtain rfl := eq_length_of_sized (length_writeElements schema [] field.kind vs) sized
          written
        refine .inr (.inl ⟨packable, content, ?_⟩)
        rw [← Except.ok.inj h, Varint.delimit, List.append_assoc]
      · next notPackable => exact .inr (.inr ⟨Bool.not_eq_true _ ▸ notPackable, h⟩)
  · cases h

/-- Sizing a message in advance has no part in its bytes. -/
theorem writeMessage_of_encode {table : FieldTable} {m : Message} {bytes : Bytes}
    (h : (m.encode schema table).result = .ok bytes) :
    (writeMessage schema table m).result = .ok bytes := by
  rw [Message.encode, Logged.result_bind] at h
  obtain ⟨size, -, written⟩ := Result.bind_eq_ok_iff.1 h
  exact written

end Protowire.Encoding
