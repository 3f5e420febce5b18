import Mathlib.Algebra.BigOperators.Ring.Finset
import Protowire.Proofs.Read.Resync
import Protowire.Proofs.Read.Scalar
import Protowire.Proofs.Reader

set_option autoImplicit false

/-!
# Varints in any bytes

Whatever stands in a window, the first ten bytes decide what reading a varint does there: it ends
with the first byte that asks for no other, and fails if there is none among them.
-/

namespace Protowire

open Finset

namespace Varint

/-- The groups that follow the first one count 128 times as much. -/
theorem value_eq_sum (bytes : Bytes) : value bytes =
    ∑ j ∈ range bytes.length, (bytes.getD j 0).toNat % 128 * 2 ^ (7 * j) := by
  induction bytes with
  | nil => rfl
  | cons b rest ih =>
    have group (j : Nat) : ((b :: rest).getD (j + 1) 0).toNat % 128 * 2 ^ (7 * (j + 1)) =
        128 * ((rest.getD j 0).toNat % 128 * 2 ^ (7 * j)) := by
      rw [List.getD_cons_succ, Nat.mul_succ, Nat.pow_add, ← Nat.mul_assoc]
      exact Nat.mul_comm _ _
    have lowest : ((b :: rest).getD 0 0).toNat % 128 * 2 ^ (7 * 0) = b.toNat % 128 :=
      Nat.mul_one _
    rw [List.length_cons, sum_range_succ', lowest, sum_congr rfl fun j _ => group j, ← mul_sum,
      ← ih, Nat.add_comm, value]

/-- A varint in front of other bytes, up to its place `i`. -/
theorem value_take {bytes : Bytes} {i : Nat} (inside : i < bytes.length) :
    value (bytes.take (i + 1)) =
      ∑ j ∈ range (i + 1), (bytes.getD j 0).toNat % 128 * 2 ^ (7 * j) := by
  have length : (bytes.take (i + 1)).length = i + 1 := List.length_take_of_le inside
  rw [value_eq_sum, length]
  refine sum_congr rfl fun j mem => ?_
  rw [List.getD_eq_getElem?_getD, List.getD_eq_getElem?_getD,
    List.getElem?_take_of_lt (mem_range.1 mem)]

/-- The first byte that is low ends a varint. -/
theorem complete_take {bytes : Bytes} {most i : Nat} {b : UInt8} (short : i < most)
    (last : bytes[i]? = some b) (low : b < 128) (high : ∀ b' ∈ bytes.take i, 128 ≤ b') :
    Complete most (bytes.take (i + 1)) := by
  refine ⟨bytes.take i, b, ?_, ?_, high, low⟩
  · rw [List.take_add_one, last, Option.toList_some]
  · rw [List.length_take]
    omega

/-- If one of the first `most` bytes is low then one of them is the first that is. -/
theorem exists_first_low {most : Nat} {bytes : Bytes} (low : ∃ b ∈ bytes.take most, b < 128) :
    ∃ i b, i < most ∧ bytes[i]? = some b ∧ b < 128 ∧ ∀ b' ∈ bytes.take i, 128 ≤ b' := by
  induction bytes generalizing most with
  | nil => simp at low
  | cons first rest ih =>
    obtain ⟨b, mem, low⟩ := low
    obtain _ | most := most
    · cases mem
    by_cases ends : first < 128
    · exact ⟨0, first, Nat.succ_pos most, rfl, ends, by simp⟩
    rcases List.mem_cons.1 mem with rfl | later
    · exact absurd low ends
    obtain ⟨i, b, short, place, low, high⟩ := ih ⟨b, later, low⟩
    refine ⟨i + 1, b, Nat.succ_lt_succ short, place, low, fun b' mem => ?_⟩
    rcases List.mem_cons.1 mem with rfl | mem
    · exact UInt8.not_lt.1 ends
    · exact high b' mem

/-- One of the first `most` bytes is low, told by its place. -/
theorem exists_low_iff {most : Nat} {bytes : Bytes} :
    (∃ i, i < min most bytes.length ∧ ∃ b, bytes[i]? = some b ∧ b < 128) ↔
      ∃ b ∈ bytes.take most, b < 128 := by
  constructor
  · rintro ⟨i, short, b, place, low⟩
    refine ⟨b, List.mem_of_getElem? (i := i) ?_, low⟩
    rwa [List.getElem?_take_of_lt (lt_min_iff.1 short).1]
  · intro low
    obtain ⟨i, b, short, place, low, -⟩ := exists_first_low low
    exact ⟨i, lt_min short (List.getElem?_eq_some_iff.1 place).1, b, place, low⟩

end Varint

namespace Read

/-- Where every byte asks for another, the groups or the bytes run out. -/
theorem run_groups_of_high {n : Nat} {c : Cursor} (high : ∀ b ∈ c.unread.take n, 128 ≤ b) :
    (groups n).run c =
      ⟨⟨.error (if n ≤ c.remaining then .varint else .underrun 1 0), []⟩,
        c.drop (min n c.remaining)⟩ := by
  induction n generalizing c with
  | zero => simp [groups, fail]
  | succ n ih =>
    cases unread : c.unread with
    | nil =>
      have empty : c.remaining = 0 := by rw [Cursor.remaining, unread, List.length_nil]
      rw [run_groups_nil n unread, empty]
      rfl
    | cons b after =>
      rw [unread, List.take_succ_cons] at high
      have behind : (c.drop 1).unread = after := by rw [Cursor.drop, unread, List.drop_one]; rfl
      have rest := ih (c := c.drop 1) fun b' mem =>
        high b' (List.mem_cons_of_mem _ (behind ▸ mem))
      have length : c.remaining = (c.drop 1).remaining + 1 := by
        rw [Cursor.remaining, Cursor.remaining, unread, behind, List.length_cons]
      rw [run_groups_high n unread (high b List.mem_cons_self), run_bind_of_error (by rw [rest]),
        rest, Cursor.drop_drop, length]
      simp only [Nat.add_le_add_iff_right, Nat.add_min_add_right, Nat.add_comm 1]

end Read

namespace Reader

variable {r : Reader}

/-- A varint is read where one of the first ten bytes is low. -/
theorem run_varint_of_low {i : Nat} {b : UInt8} (short : i < 10)
    (last : r.cursor.unread[i]? = some b) (low : b < 0x80)
    (high : ∀ b' ∈ r.cursor.unread.take i, 0x80 ≤ b') :
    r.run Read.varint =
      (.ok (UInt64.ofNat
        (∑ j ∈ range (i + 1), (r.cursor.unread.getD j 0).toNat % 128 * 2 ^ (7 * j))),
        { r with position := r.position + (i + 1) }) := by
  have inside : i < r.cursor.unread.length := (List.getElem?_eq_some_iff.1 last).1
  have spelled : Varint.Spells (r.cursor.unread.take (i + 1))
      (UInt64.ofNat (Varint.value (r.cursor.unread.take (i + 1)))) :=
    ⟨Varint.complete_take short last low high, rfl⟩
  have length : (r.cursor.unread.take (i + 1)).length = i + 1 := List.length_take_of_le inside
  have unread := (List.take_append_drop (i + 1) r.cursor.unread).symm
  rw [run_of_takes (Read.recognizes_varint.takes spelled) unread, length, Varint.value_take inside]

theorem run_varint_of_high (h : r.Ordered) (high : ∀ b ∈ r.cursor.unread.take 10, 0x80 ≤ b) :
    r.run Read.varint = (.error (if 10 ≤ r.remaining then .varint else .underrun 1 0),
      { r with position := r.position + min 10 r.remaining }) := by
  have stops : Read.varint.run r.cursor = _ := Read.run_groups_of_high high
  rw [run, stops, h.remaining_cursor]
  rfl

/-- Ten bytes are too many, fewer are cut off by the end of the window. -/
theorem run_varint_of_overlong (h : r.Ordered) (high : ∀ b ∈ r.cursor.unread.take 10, 0x80 ≤ b)
    (whole : 10 ≤ r.remaining) :
    r.run Read.varint = (.error .varint, { r with position := r.position + 10 }) := by
  rw [run_varint_of_high h high, if_pos whole, Nat.min_eq_left whole]

theorem run_varint_of_cut (h : r.Ordered) (high : ∀ b ∈ r.cursor.unread.take 10, 0x80 ≤ b)
    (short : ¬ 10 ≤ r.remaining) :
    r.run Read.varint = (.error (.underrun 1 0), { r with position := r.stop }) := by
  have stop : r.position + r.remaining = r.stop := Nat.add_sub_cancel' h.position_le
  rw [run_varint_of_high h high, if_neg short, Nat.min_eq_right (Nat.le_of_not_le short), stop]

/-- Reading a varint in a window of any content. -/
theorem run_varint (h : r.Ordered) :
    let window := r.cursor.unread
    let read := r.run Read.varint
    (∀ i b, i < 10 → window[i]? = some b → b < 0x80 → (∀ b' ∈ window.take i, 0x80 ≤ b') →
      read =
        (.ok (UInt64.ofNat
          (∑ j ∈ range (i + 1), (window.getD j 0).toNat % 128 * 2 ^ (7 * j))),
          { r with position := r.position + (i + 1) })) ∧
    ((∃ v, read.1 = .ok v) ↔
      ∃ i, i < min 10 r.remaining ∧ ∃ b, window[i]? = some b ∧ b < 0x80) ∧
    (read.1 = .error .varint ↔ 10 ≤ r.remaining ∧ ∀ b ∈ window.take 10, 0x80 ≤ b) ∧
    (read.1 = .error .varint → read.2 = { r with position := r.position + 10 }) ∧
    ((∀ v, read.1 ≠ .ok v) → read.1 ≠ .error .varint →
      read = (.error (.underrun 1 0), { r with position := r.stop })) := by
  intro window read
  have length : window.length = r.remaining := h.remaining_cursor
  have ends : (∃ i, i < min 10 r.remaining ∧ ∃ b, window[i]? = some b ∧ b < 0x80) ↔
      ∃ b ∈ window.take 10, b < 0x80 := by
    rw [← length]
    exact Varint.exists_low_iff
  have open_iff : (∀ b ∈ window.take 10, 0x80 ≤ b) ↔ ¬ ∃ b ∈ window.take 10, b < 0x80 := by
    simp only [← UInt8.not_lt, not_exists, not_and]
  refine ⟨fun i b => run_varint_of_low, ?_⟩
  rw [ends, open_iff]
  by_cases low : ∃ b ∈ window.take 10, b < 0x80
  · obtain ⟨i, b, short, last, below, high⟩ := Varint.exists_first_low low
    have value : read = _ := run_varint_of_low short last below high
    rw [value]
    exact ⟨⟨fun _ => low, fun _ => ⟨_, rfl⟩⟩, ⟨nofun, fun overlong => absurd low overlong.2⟩,
      nofun, fun failed => absurd rfl (failed _)⟩
  · by_cases whole : 10 ≤ r.remaining
    · have failed : read = _ := run_varint_of_overlong h (open_iff.2 low) whole
      rw [failed]
      exact ⟨⟨nofun, fun ends => absurd ends low⟩, ⟨fun _ => ⟨whole, low⟩, fun _ => rfl⟩,
        fun _ => rfl, fun _ other => absurd rfl other⟩
    · have failed : read = _ := run_varint_of_cut h (open_iff.2 low) whole
      rw [failed]
      exact ⟨⟨nofun, fun ends => absurd ends low⟩, ⟨nofun, fun overlong => absurd overlong.1 whole⟩,
        nofun, fun _ _ => rfl⟩

/-- A tenth byte with a bit too many, in front of a varint that its window cuts off. -/
theorem run_varint_tenth :
    let buffer : Bytes := List.replicate 9 0x80 ++ [0x03, 0x80, 0xFF, 0x01]
    let r : Reader := ⟨buffer, 0, 12⟩
    let behind : Reader := ⟨buffer, 10, 12⟩
    r.Ordered ∧ r.run Read.varint = (.ok 0x8000000000000000, behind) ∧ behind.Ordered ∧
      behind.run Read.varint = (.error (.underrun 1 0), { behind with position := 12 }) := by
  intro buffer r behind
  have ordered : r.Ordered := ⟨by decide, by decide⟩
  have ordered' : behind.Ordered := ⟨by decide, by decide⟩
  have sum : UInt64.ofNat (∑ j ∈ range (9 + 1), (r.cursor.unread.getD j 0).toNat % 128 *
      2 ^ (7 * j)) = 0x8000000000000000 := by decide +kernel
  have high : ∀ b ∈ r.cursor.unread.take 9, 0x80 ≤ b := fun b mem =>
    (List.eq_of_mem_replicate (n := 9) mem).symm ▸ UInt8.le_refl 0x80
  have value := (run_varint ordered).1 9 0x03 (by decide) (by decide) (by decide) high
  have result : (behind.run Read.varint).1 = .error (.underrun 1 0) := by decide +kernel
  refine ⟨ordered, by rw [value, sum], ordered', (run_varint ordered').2.2.2.2 ?_ ?_⟩
  · rw [result]
    exact nofun
  · rw [result]
    exact nofun

end Reader

end Protowire
