import Protowire.Proofs.Guarded.Sizing

set_option autoImplicit false

/-!
# Guarded encoding is encoding

The lengths in a message are sizes of parts of it, so as long as the bulk of the message is a word
writing meets no fault either. And what is written is as long as it was sized.
-/

namespace Protowire.Guarded

open Checked

/-- A size that is asked for while writing. -/
theorem Sizes.bind_eq {α : Type} {x : Checked Nat} {r : Except Error Nat} {bulk : Nat}
    (hx : Sizes x r bulk) (small : bulk < 2 ^ 64) {f : Nat → Checked α} {g : Nat → Logged α}
    (hf : ∀ n, f n = .ok (g n)) : x >>= f = (.ok (liftM r >>= g) : Except Fault (Logged α)) :=
  Checked.bind_eq (hx.checked small) fun n _ => hf n

theorem lift_error_bind_eq {α β : Type} (r : Except Error α) {f : α → Checked β}
    {g : α → Logged β} (hf : ∀ a, r = .ok a → f a = .ok (g a)) :
    (liftM r >>= f : Checked β) = (.ok (liftM r >>= g) : Except Fault (Logged β)) :=
  Checked.bind_eq rfl hf

theorem assert_bind {α : Type} (number : FieldNumber) (w : WireType) (f : Tag → Checked α) :
    (liftM (Tag.assert number.val w) >>= f : Checked α) = f ⟨number, w⟩ :=
  Checked.lift_bind (Tag.assert_eq number w) f

theorem writePayload_eq {p : Payload} (small : p.size < 2 ^ 64) :
    writePayload p = .ok (pure p.encode) :=
  (Sizes.payload p).bind_eq small fun _ => rfl

theorem writeSingle_eq {number : FieldNumber} {k : Kind} {v : Value} {x : Checked Bytes}
    {y : Logged Bytes} {bulk : Nat} (hx : bulk < 2 ^ 64 → x = .ok y)
    (small : Encoding.singleBulk number k v bulk < 2 ^ 64) :
    writeSingle number k v x = .ok (Encoding.writeSingle number k v y) := by
  apply lift_error_bind_eq
  intro omitted found
  cases omitted with
  | true => exact Checked.bind_eq rfl fun _ _ => rfl
  | false =>
    rw [Encoding.singleBulk, found] at small
    have inside : bulk < 2 ^ 64 := Nat.lt_of_le_of_lt (Nat.le_add_left _ _) small
    simp only [Bool.false_eq_true, if_false]
    rw [assert_bind]
    exact Checked.bind_eq (hx inside) fun _ _ => rfl

variable (schema : Schema)

mutual

theorem writeElement_eq (k : Kind) (v : Value)
    (small : Encoding.elementBulk schema k v < 2 ^ 64) :
    writeElement schema k v = .ok (Encoding.writeElement schema k v) := by
  cases v with
  | scalar s =>
    apply lift_error_bind_eq
    intro p found
    rw [Encoding.elementBulk, found] at small
    exact writePayload_eq small
  | message m =>
    cases k with
    | scalar t => rfl
    | message type =>
      have content : Encoding.messageBulk schema (schema.table type) m < 2 ^ 64 :=
        Nat.lt_of_le_of_lt (Nat.le_add_left _ _) small
      apply (sizes_message schema (schema.table type) m).bind_eq content
      intro size
      exact Checked.bind_eq (writeMessage_eq (schema.table type) m content) fun _ _ => rfl

theorem writeElements_eq (k : Kind) (vs : List Value)
    (small : Encoding.elementsBulk schema 0 k vs < 2 ^ 64) :
    writeElements schema k vs = .ok (Encoding.writeElements schema [] k vs) := by
  cases vs with
  | nil => rfl
  | cons v vs =>
    rw [Encoding.elementsBulk] at small
    apply Checked.bind_eq (writeElement_eq k v (by omega))
    intro bytes _
    exact Checked.bind_eq (writeElements_eq k vs (by omega)) fun _ _ => rfl

theorem writeTagged_eq (number : FieldNumber) (k : Kind) (vs : List Value)
    (small : Encoding.elementsBulk schema (Tag.mk number .delimited).size k vs < 2 ^ 64) :
    writeTagged schema number k vs =
      .ok (Encoding.writeElements schema (Tag.mk number .delimited).encode k vs) := by
  cases vs with
  | nil => rfl
  | cons v vs =>
    rw [Encoding.elementsBulk] at small
    rw [writeTagged, assert_bind]
    apply Checked.bind_eq (writeElement_eq k v (by omega))
    intro bytes _
    exact Checked.bind_eq (writeTagged_eq number k vs (by omega)) fun _ _ => rfl

theorem writeEntry_eq (keyKind kind : Kind) (e : Entry)
    (small : Encoding.entryBulk schema keyKind kind e < 2 ^ 64) :
    writeEntry schema keyKind kind e = .ok (Encoding.writeEntry schema keyKind kind e) := by
  cases e with
  | mk key value =>
    rw [Encoding.entryBulk] at small
    apply Checked.bind_eq (writeSingle_eq (writeElement_eq keyKind key)
      (Nat.lt_of_le_of_lt (Nat.le_add_right _ _) small))
    intro first _
    exact Checked.bind_eq (writeSingle_eq (writeElement_eq kind value)
      (Nat.lt_of_le_of_lt (Nat.le_add_left _ _) small)) fun _ _ => rfl

theorem writeEntries_eq (number : FieldNumber) (keyKind kind : Kind) (es : List Entry)
    (small : Encoding.entriesBulk schema number keyKind kind es < 2 ^ 64) :
    writeEntries schema number keyKind kind es =
      .ok (Encoding.writeEntries schema number keyKind kind es) := by
  cases es with
  | nil => rfl
  | cons e es =>
    rw [Encoding.entriesBulk, Varint.delimitedSize] at small
    have inside : Encoding.entryBulk schema keyKind kind e < 2 ^ 64 := by omega
    rw [writeEntries, assert_bind]
    apply (sizes_entry schema keyKind kind e).bind_eq inside
    intro size
    apply Checked.bind_eq (writeEntry_eq keyKind kind e inside)
    intro bytes _
    exact Checked.bind_eq (writeEntries_eq number keyKind kind es (by omega)) fun _ _ => rfl

theorem writeSlot_eq (field : FieldSlot) (slot : Slot)
    (small : Encoding.slotBulk schema field slot < 2 ^ 64) :
    writeSlot schema field slot = .ok (Encoding.writeSlot schema field slot) := by
  cases slot with
  | unset => rfl
  | single v =>
    simp only [writeSlot, Encoding.writeSlot, Encoding.slotBulk] at small ⊢
    cases cardinality : field.cardinality with
    | single =>
      rw [cardinality] at small
      exact writeSingle_eq (writeElement_eq field.kind v) small
    | _ => rfl
  | repeated vs =>
    simp only [writeSlot, Encoding.writeSlot, Encoding.slotBulk] at small ⊢
    cases cardinality : field.cardinality with
    | repeated =>
      simp only [cardinality] at small ⊢
      split
      · rfl
      · next some =>
        rw [if_neg some] at small
        split
        · next packs =>
          rw [if_pos packs, Varint.delimitedSize] at small
          have inside : 0 + Encoding.elementsBulk schema 0 field.kind vs < 2 ^ 64 := by omega
          have counted := sizes_elements schema 0 field.kind 0 vs
          rw [zero_add_map] at counted
          rw [assert_bind]
          apply counted.bind_eq inside
          intro size
          exact Checked.bind_eq (writeElements_eq field.kind vs (by omega)) fun _ _ => rfl
        · next apart =>
          rw [if_neg apart] at small
          exact writeTagged_eq field.number field.kind vs small
    | _ => rfl
  | map es =>
    simp only [writeSlot, Encoding.writeSlot, Encoding.slotBulk] at small ⊢
    cases cardinality : field.cardinality with
    | map keyKind =>
      rw [cardinality] at small
      exact writeEntries_eq field.number keyKind field.kind es small
    | _ => rfl

theorem writeSlots_eq (fields : List FieldSlot) (slots : List Slot)
    (small : Encoding.slotsBulk schema fields slots < 2 ^ 64) :
    writeSlots schema fields slots = .ok (Encoding.writeSlots schema fields slots) := by
  cases fields with
  | nil => cases slots <;> rfl
  | cons field fields =>
    cases slots with
    | nil => rfl
    | cons slot slots =>
      rw [Encoding.slotsBulk] at small
      apply Checked.bind_eq (writeSlot_eq field slot (by omega))
      intro bytes _
      exact Checked.bind_eq (writeSlots_eq fields slots (by omega)) fun _ _ => rfl

theorem writeMessage_eq (table : FieldTable) (m : Message)
    (small : Encoding.messageBulk schema table m < 2 ^ 64) :
    writeMessage schema table m = .ok (Encoding.writeMessage schema table m) := by
  cases m with
  | mk type slots => exact writeSlots_eq table.slots slots small

end

variable {schema} {table : FieldTable} {m : Message}

theorem messageSize_eq (small : m.bulk schema table < 2 ^ 64) :
    messageSize schema table m = .ok (.ofExcept (m.encodedSize schema table)) :=
  (sizes_message schema table m).checked small

theorem encode_eq (small : m.bulk schema table < 2 ^ 64) :
    encode schema table m = .ok (m.encode schema table) := by
  apply Checked.bind_eq (messageSize_eq small)
  intro size sized
  have foretold := Encoding.length_writeMessage schema table m
  rw [← bind_pure (Encoding.writeMessage schema table m)]
  apply Checked.bind_eq (writeMessage_eq schema table m small)
  intro bytes written
  rw [written] at foretold
  have length : bytes.length = size := Except.ok.inj (foretold.trans sized)
  rw [if_pos length]
  rfl

end Protowire.Guarded
