import Protowire.Encoding
import Protowire.Proofs.Result
import Protowire.Proofs.Varint

set_option autoImplicit false

/-!
# The sizing pass foretells the writing pass

Both passes walk the message in the same order and look at the same things, so the writing pass
gives as many bytes as were counted, and where counting fails writing fails in the same way. Each
writer has one lemma, which says so as an equation between results.
-/

namespace Protowire

@[simp] theorem Payload.length_encode (p : Payload) : p.encode.length = p.size := by
  cases p <;> simp [encode, size]

@[simp] theorem Tag.length_encode (t : Tag) : t.encode.length = t.size :=
  Varint.length_encode _

namespace Encoding

theorem length_writeSingle (number : FieldNumber) (k : Kind) (v : Value)
    (element : Logged Bytes) :
    List.length <$> (writeSingle number k v element).result =
      singleSize number k v (List.length <$> element.result) := by
  simp only [singleSize, writeSingle, Logged.result_bind, Logged.result_liftM]
  cases k.omits v with
  | error e => rfl
  | ok omitted =>
    cases omitted with
    | true => rfl
    | false =>
      change List.length <$> (element >>= fun bytes => pure (_ ++ bytes)).result =
        List.length <$> element.result >>= fun n => pure (_ + n)
      simp

variable (schema : Schema)

mutual

theorem length_writeElement (k : Kind) (v : Value) :
    List.length <$> (writeElement schema k v).result = elementSize schema k v := by
  cases v with
  | scalar s => simp [writeElement, elementSize]
  | message m =>
    cases k with
    | scalar t => rfl
    | message type =>
      -- The length is sized before the content, from the same message.
      have content := length_writeMessage (schema.table type) m
      simp [writeElement, elementSize, Varint.delimitedSize, ← content, Result.bind_map_self]

theorem length_writeElements (lead : Bytes) (k : Kind) (vs : List Value) :
    List.length <$> (writeElements schema lead k vs).result =
      elementsSize schema lead.length k vs := by
  cases vs with
  | nil => rfl
  | cons v vs =>
    simp [writeElements, elementsSize, ← length_writeElement k v,
      ← length_writeElements lead k vs, Nat.add_assoc]

theorem length_writeEntry (keyKind kind : Kind) (e : Entry) :
    List.length <$> (writeEntry schema keyKind kind e).result =
      entrySize schema keyKind kind e := by
  cases e with
  | mk key value =>
    simp [writeEntry, entrySize, ← length_writeElement keyKind key,
      ← length_writeElement kind value, ← length_writeSingle]

theorem length_writeEntries (number : FieldNumber) (keyKind kind : Kind) (es : List Entry) :
    List.length <$> (writeEntries schema number keyKind kind es).result =
      entriesSize schema number keyKind kind es := by
  cases es with
  | nil => rfl
  | cons e es =>
    simp [writeEntries, entriesSize, ← length_writeEntry keyKind kind e,
      ← length_writeEntries number keyKind kind es, Varint.delimitedSize, Result.bind_bind_self,
      Nat.add_assoc]

theorem length_writeSlot (field : FieldSlot) (slot : Slot) :
    List.length <$> (writeSlot schema field slot).result = slotSize schema field slot := by
  cases slot with
  | unset => rfl
  | single v =>
    simp only [writeSlot, slotSize]
    cases field.cardinality with
    | single => rw [length_writeSingle, length_writeElement field.kind v]
    | repeated => rfl
    | map key => rfl
  | repeated vs =>
    simp only [writeSlot, slotSize]
    cases field.cardinality with
    | single => rfl
    | repeated =>
      have packed : List.length <$> (writeElements schema [] field.kind vs).result =
          elementsSize schema 0 field.kind vs := length_writeElements [] field.kind vs
      have unpacked := length_writeElements (Tag.mk field.number .delimited).encode field.kind vs
      dsimp only
      split
      · rfl
      · split
        · simp [← packed, Varint.delimitedSize, Result.bind_map_self]
        · simpa using unpacked
    | map key => rfl
  | map es =>
    simp only [writeSlot, slotSize]
    cases field.cardinality with
    | single => rfl
    | repeated => rfl
    | map key => exact length_writeEntries field.number key field.kind es

theorem length_writeSlots (fields : List FieldSlot) (slots : List Slot) :
    List.length <$> (writeSlots schema fields slots).result = slotsSize schema fields slots := by
  cases fields with
  | nil => simp [writeSlots, slotsSize]
  | cons field fields =>
    cases slots with
    | nil => rfl
    | cons slot slots =>
      simp [writeSlots, slotsSize, ← length_writeSlot field slot,
        ← length_writeSlots fields slots]

theorem length_writeMessage (table : FieldTable) (m : Message) :
    List.length <$> (writeMessage schema table m).result = messageSize schema table m := by
  cases m with
  | mk type slots => exact length_writeSlots table.slots slots

end

end Encoding

namespace Message

variable (schema : Schema) (table : FieldTable) (m : Message)

theorem length_encode :
    List.length <$> (m.encode schema table).result = m.encodedSize schema table := by
  have written := Encoding.length_writeMessage schema table m
  simp only [encode, encodedSize, Logged.result_bind, Logged.result_liftM, ← written]
  cases (Encoding.writeMessage schema table m).result <;> rfl

/-- Sizing answers for writing in every case, well-shaped or not: with the length of what is
written, or with the very error. The last part leaves the sizing pass out, so once a message is
sized the writing pass cannot fail or go wrong about a length. -/
theorem encodedSize_mirrors_encode :
    (∀ n, m.encodedSize schema table = .ok n ↔
      ∃ bytes, (m.encode schema table).result = .ok bytes ∧ bytes.length = n) ∧
    (∀ e, m.encodedSize schema table = .error e ↔ (m.encode schema table).result = .error e) ∧
    List.length <$> (Encoding.writeMessage schema table m).result =
      m.encodedSize schema table := by
  refine ⟨fun n => ?_, fun e => ?_, Encoding.length_writeMessage schema table m⟩
  · rw [← length_encode, Result.map_eq_ok_iff]
  · rw [← length_encode, Result.map_eq_error_iff]

end Message

end Protowire
