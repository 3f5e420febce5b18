import Protowire.Proofs.Read
import Protowire.Read.Bytes
import Protowire.Reader

set_option autoImplicit false

/-!
# Readers in order

A read on a reader is the read on its cursor, as long as the positions of the reader are in order.
Reads, seeks and windows keep them so.
-/

namespace Protowire

/-- The window in force lies in the buffer, and the position is not behind it. -/
structure Reader.Ordered (r : Reader) : Prop where
  position_le : r.position ≤ r.stop
  stop_le : r.stop ≤ r.buffer.length

namespace Reader

variable {α : Type} {r : Reader} {n : Nat}

theorem ordered_ofBytes (bytes : Bytes) : (ofBytes bytes).Ordered := ⟨Nat.zero_le _, Nat.le_refl _⟩

@[simp] theorem buffer_run (r : Reader) (x : Read α) : (r.run x).2.buffer = r.buffer := rfl

@[simp] theorem stop_run (r : Reader) (x : Read α) : (r.run x).2.stop = r.stop := rfl

namespace Ordered

theorem remaining_cursor (h : r.Ordered) : r.cursor.remaining = r.remaining := by
  have inside := h.stop_le
  simp only [cursor, Cursor.remaining, List.length_drop, List.length_take, remaining]
  omega

theorem atEnd_iff (h : r.Ordered) : r.atEnd = true ↔ r.cursor.unread = [] := by
  have ordered := h.position_le
  have length := h.remaining_cursor
  rw [Cursor.remaining, remaining] at length
  rw [← List.length_eq_zero_iff, length, atEnd, beq_iff_eq]
  omega

theorem moved (h : r.Ordered) {c : Cursor} (reaches : r.cursor.Reaches c) :
    ({ r with position := c.offset } : Reader).Ordered ∧
      ({ r with position := c.offset } : Reader).cursor = c := by
  obtain ⟨n, le, rfl⟩ := reaches
  rw [h.remaining_cursor, remaining] at le
  have := h.position_le
  constructor
  · refine ⟨?_, h.stop_le⟩
    simp only [cursor, Cursor.drop]
    omega
  · simp only [cursor, Cursor.drop, List.drop_drop]

theorem run (h : r.Ordered) (x : Read α) :
    (r.run x).2.Ordered ∧ (r.run x).2.cursor = (x.run r.cursor).rest :=
  h.moved (x.forward r.cursor)

theorem seek (h : r.Ordered) (offset : Nat) : (r.seek offset).2.Ordered := by
  unfold Reader.seek
  split
  · next le => exact ⟨le, h.stop_le⟩
  · exact h

/-- A window inside the one in force. -/
theorem within (h : r.Ordered) (fits : n ≤ r.remaining) :
    ({ r with stop := r.position + n } : Reader).Ordered ∧
      ({ r with stop := r.position + n } : Reader).cursor = r.cursor.take n := by
  have ordered := h.position_le
  have inside := h.stop_le
  rw [remaining] at fits
  constructor
  · refine ⟨Nat.le_add_right _ _, ?_⟩
    change r.position + n ≤ r.buffer.length
    omega
  · have front : min (r.position + n) r.stop = r.position + n := by omega
    simp only [cursor, Cursor.take, List.take_drop, List.take_take, front]

/-- The place behind such a window. -/
theorem behind (h : r.Ordered) (fits : n ≤ r.remaining) :
    ({ r with position := r.position + n } : Reader).Ordered := by
  have ordered := h.position_le
  rw [remaining] at fits
  refine ⟨?_, h.stop_le⟩
  change r.position + n ≤ r.stop
  omega

end Ordered

theorem run_window_of_fits {size : Nat} (h : r.Ordered) (fits : size ≤ r.remaining)
    (inner : Cursor → Logged α) : r.run (Read.window size inner) =
      ((inner ({ r with stop := r.position + size } : Reader).cursor).result,
        { r with position := r.position + size }) := by
  have window := (h.within fits).2
  rw [← h.remaining_cursor] at fits
  have inside : (Read.window size inner).run r.cursor =
      ⟨inner (r.cursor.take size), r.cursor.drop size⟩ := if_pos fits
  rw [run, inside, window]
  rfl

theorem run_window_of_short {size : Nat} (h : r.Ordered) (short : ¬ size ≤ r.remaining)
    (inner : Cursor → Logged α) :
    r.run (Read.window size inner) = (.error (.underrun size r.remaining), r) := by
  rw [← h.remaining_cursor] at short ⊢
  have outside : (Read.window size inner).run r.cursor =
      ⟨⟨.error (.underrun size r.cursor.remaining), []⟩, r.cursor⟩ := if_neg short
  rw [run, outside]
  rfl

theorem run_delimited_of_ok {size : UInt64} {next : Reader} (h : r.Ordered)
    (length : r.run Read.varint = (.ok size, next)) (inner : Cursor → Logged α) :
    r.run (Read.delimited inner) = next.run (Read.window size.toNat inner) := by
  have cursor := (h.run Read.varint).2
  have value : (Read.varint.run r.cursor).result = .ok size := congrArg Prod.fst length
  obtain rfl : (r.run Read.varint).2 = next := congrArg Prod.snd length
  unfold Read.delimited
  rw [run, Read.run_bind_of_ok value, ← cursor]
  rfl

section Takes

variable {x : Read α} {P : Bytes → α → Prop} {bytes rest : Bytes} {a : α}

theorem run_of_takes (takes : x.Takes bytes a) (unread : r.cursor.unread = bytes ++ rest) :
    r.run x = (.ok a, { r with position := r.position + bytes.length }) := by
  obtain ⟨value, final⟩ := Read.takes_iff.1 takes r.position rest
  have cursor : r.cursor = ⟨r.position, bytes ++ rest⟩ := by rw [← unread]; rfl
  rw [run, cursor, value, final]

theorem unread_ofBytes (bytes : Bytes) : (ofBytes bytes).cursor.unread = bytes := by
  change (bytes.take bytes.length).drop 0 = bytes
  rw [List.take_length, List.drop_zero]

/-- To be read from one end to the other is to be in the language of the read. -/
theorem run_ofBytes_iff (hx : x.Recognizes P) :
    (ofBytes bytes).run x = (.ok a, { ofBytes bytes with position := bytes.length }) ↔
      P bytes a := by
  constructor
  · intro whole
    have value : (x.run (ofBytes bytes).cursor).result = .ok a := congrArg Prod.fst whole
    have stop : (x.run (ofBytes bytes).cursor).rest.offset = bytes.length :=
      congrArg (fun out => out.2.position) whole
    obtain ⟨front, unread, hp⟩ := hx.taken value
    have read := run_of_takes (hx.takes hp) unread
    rw [whole, Prod.mk.injEq, Reader.mk.injEq] at read
    have length : bytes.length = front.length := read.2.2.1.trans (Nat.zero_add _)
    rw [unread_ofBytes] at unread
    obtain ⟨rfl, -⟩ := List.append_inj (unread.symm.trans (List.append_nil bytes).symm) length.symm
    exact hp
  · intro hp
    have unread := (unread_ofBytes bytes).trans (List.append_nil bytes).symm
    have stop : (ofBytes bytes).position + bytes.length = bytes.length := Nat.zero_add _
    rw [run_of_takes (hx.takes hp) unread, stop]

end Takes

end Reader

end Protowire
