import Protowire.Proofs.Guarded.Mirror
import Protowire.Proofs.Read

set_option autoImplicit false

/-!
# Guarded payloads and tags

A varint is put together by shifts here, low groups first, and by a recurrence on cursors, from its
high end. Everything else is the same steps on both sides.
-/

namespace Protowire.Guarded

variable {α : Type} {m : Machine}

/-- The last byte of a varint has its high bit clear. -/
theorem and_high_eq_zero_iff (b : UInt8) : b &&& 0x80 = 0 ↔ b < 128 := by
  have all : ∀ n < 256, (n &&& 128 = 0 ↔ n < 128) := by decide +kernel
  rw [← UInt8.toNat_inj, UInt8.lt_iff_toNat_lt]
  exact all b.toNat b.toNat_lt

theorem toUInt64_low (b : UInt8) : (b &&& 0x7F).toUInt64 = b.toUInt64 % 128 := by
  apply UInt64.toNat_inj.1
  rw [UInt8.toNat_toUInt64, UInt8.toNat_and, UInt64.toNat_mod, UInt8.toNat_toUInt64]
  exact Nat.and_two_pow_sub_one_eq_mod b.toNat 7

theorem toUInt64_mod {b : UInt8} (h : b < 128) : b.toUInt64 % 128 = b.toUInt64 := by
  apply UInt64.toNat_inj.1
  rw [UInt64.toNat_mod, UInt8.toNat_toUInt64]
  exact Nat.mod_eq_of_lt (UInt8.lt_iff_toNat_lt.1 h)

/-- Groups do not overlap, so it is all the same whether they are added or joined. -/
theorem low_add_high (low high : UInt64) (h : low.toNat < 2 ^ 7) :
    low + (128 : UInt64) * high = low ||| high <<< (7 : UInt64) := by
  have shifted : ((128 : UInt64) * high).toNat = 2 ^ 7 * (high.toNat % 2 ^ 57) := by
    rw [UInt64.toNat_mul]
    change 128 * high.toNat % 2 ^ 64 = _
    omega
  have moved : (high <<< (7 : UInt64)).toNat = 2 ^ 7 * (high.toNat % 2 ^ 57) := by
    rw [UInt64.toNat_shiftLeft, Nat.shiftLeft_eq]
    change high.toNat * 128 % 2 ^ 64 = _
    omega
  have bound := Nat.mod_lt high.toNat (show 2 ^ 57 > 0 by decide)
  apply UInt64.toNat_inj.1
  rw [UInt64.toNat_add, shifted, UInt64.toNat_or, moved, Nat.or_comm,
    ← Nat.two_pow_add_eq_or_of_lt h, Nat.mod_eq_of_lt (by omega), Nat.add_comm]

theorem ofNat_lt {n : Nat} (h : n < 64) : UInt64.ofNat n < 64 := by
  rw [UInt64.lt_iff_toNat_lt, UInt64.toNat_ofNat', Nat.mod_eq_of_lt (by omega)]
  exact h

theorem shift_group (value low high : UInt64) {k : Nat} (h : k < 9) :
    value ||| ((low ||| (high <<< (7 : UInt64))) <<< UInt64.ofNat (7 * k)) =
      (value ||| (low <<< UInt64.ofNat (7 * k))) ||| (high <<< UInt64.ofNat (7 * (k + 1))) := by
  have amount : UInt64.ofNat (7 * (k + 1)) = 7 + UInt64.ofNat (7 * k) := by
    rw [Nat.mul_add, UInt64.ofNat_add, UInt64.add_comm]
    rfl
  have all : 7 + UInt64.ofNat (7 * k) < 64 := by
    rw [← amount]
    exact ofNat_lt (by omega)
  rw [UInt64.shiftLeft_or, amount, UInt64.shiftLeft_add (by decide) (ofNat_lt (by omega)) all,
    UInt64.or_assoc]

/-- Groups that are read behind `k` others are shifted by the bits of those. -/
theorem mirrors_groups {left k : Nat} (total : left + k = 10) (value : UInt64) :
    Mirrors (groups left k value)
      ((fun v => value ||| v <<< UInt64.ofNat (7 * k)) <$> Read.groups left) := by
  induction left generalizing k value with
  | zero => exact .fail .varint
  | succ left ih =>
    rw [groups, Read.groups, map_bind]
    apply mirrors_byte.bind
    intro b
    rw [lift_bind (Word.shiftLeft_eq _ (by omega))]
    by_cases last : b < 128
    · rw [if_pos ((and_high_eq_zero_iff b).2 last), if_pos last, map_pure, toUInt64_low,
        toUInt64_mod last]
      exact .pure _
    · rw [if_neg fun zero => last ((and_high_eq_zero_iff b).1 zero), if_neg last]
      have others := ih (k := k + 1) (by omega)
        (value ||| (b &&& 0x7F).toUInt64 <<< UInt64.ofNat (7 * k))
      cases left with
      | zero => exact .fail .varint
      | succ left =>
        have small : (b &&& 0x7F).toUInt64.toNat < 2 ^ 7 := by
          rw [toUInt64_low, UInt64.toNat_mod]
          exact Nat.mod_lt _ (by decide)
        rw [bind_pure_comp, Functor.map_map]
        have regroup : (fun high : UInt64 => value |||
            (b.toUInt64 % 128 + 128 * high) <<< UInt64.ofNat (7 * k)) = _ :=
          funext fun high => by
            rw [← toUInt64_low, low_add_high _ _ small, shift_group _ _ _ (show k < 9 by omega)]
        rw [regroup]
        exact others

theorem mirrors_varint : Mirrors varint Read.varint := by
  have ten : 10 + 0 = 10 := rfl
  have whole := mirrors_groups ten 0
  have same : (fun v : UInt64 => (0 : UInt64) ||| v <<< UInt64.ofNat (7 * 0)) = id := by
    funext v
    simp
  rw [same, id_map] at whole
  exact whole

theorem mirrors_fixed32 : Mirrors fixed32 Read.fixed32 := (mirrors_take 4).bind_pure _

theorem mirrors_fixed64 : Mirrors fixed64 Read.fixed64 := (mirrors_take 8).bind_pure _

section Window

variable {n : Nat} {inner : Guarded α}

theorem run_window_of_le (sound : m.Sound) (fits : n ≤ m.reader.remaining)
    {result : Except Error α} {m' : Machine} (h : inner.run (m.within n) = .ok (result, m')) :
    (window n inner).run m = .ok (result, m'.leave m.reader.stop) := by
  rw [window, run_check_bind sound, if_pos fits, run_reader_bind,
    lift_bind (add_position sound fits), run_boundBy_bind]
  change (inner.attempt >>= _).run (m.within n) = _
  rw [run_attempt_bind h]
  rfl

theorem run_window_of_not_le (sound : m.Sound) (short : ¬ n ≤ m.reader.remaining) :
    (window n inner).run m = .ok (.error (.underrun n m.reader.remaining), m) := by
  rw [window, run_check_bind sound, if_neg short]

end Window

theorem run_rest {content : Bytes}
    (range : Slice.range m.reader.buffer m.reader.position m.reader.stop = .ok content) :
    rest.run m = .ok (.ok content,
      ⟨m.reader.moveTo m.reader.stop, m.log, m.work + content.length⟩) := by
  rw [rest, run_reader_bind, lift_bind range]
  rfl

theorem mirrors_bytes : Mirrors bytes Read.bytes := by
  apply mirrors_varint.bind
  intro length
  apply mirrors_check
  intro m sound fits
  have count : (m.cursor.take length.toNat).unread.length = length.toNat := by
    rw [← sound.remaining_cursor] at fits
    exact Cursor.remaining_take fits
  have range : Slice.range (m.within length.toNat).reader.buffer
      (m.within length.toNat).reader.position (m.within length.toNat).reader.stop =
        .ok (m.cursor.take length.toNat).unread := Reader.Sound.range_eq sound fits
  have content := run_rest range
  rw [run_reader_bind, lift_bind (add_position sound fits), run_boundBy_bind]
  change (rest.attempt >>= _).run (m.within length.toNat) = _
  have final : m.after (m.cursor.drop length.toNat) [] length.toNat = _ := Machine.after_nil
  change _ = Except.ok (_, m.after (m.cursor.drop length.toNat) [] length.toNat)
  rw [run_attempt_bind content, count, final]
  rfl

theorem mirrors_string : Mirrors string Read.string :=
  mirrors_bytes.bind fun _ => .ofExcept _

theorem mirrors_scalar (t : ScalarType) : Mirrors (scalar t) t.read := by
  cases t
  case string => exact mirrors_string.bind_pure _
  case bytes => exact mirrors_bytes.bind_pure _
  case fixed32 | sfixed32 | float => exact mirrors_fixed32.bind_pure _
  case fixed64 | sfixed64 | double => exact mirrors_fixed64.bind_pure _
  all_goals exact mirrors_varint.bind_pure _

/-- A count of bytes does not fall below zero, because a read does not go back. -/
theorem mirrors_count {g : Guarded Unit} {x : Read Unit} (h : Mirrors g x) :
    Mirrors (do
      let start ← reader
      g
      Word.sub (← reader).position start.position)
    (do
      let start ← Read.offset
      x
      return (← Read.offset) - start) := by
  intro m sound
  have first := h m sound
  rw [Performs] at first ⊢
  cases hr : (x.run m.cursor).result with
  | error e =>
    rw [hr] at first
    rw [Read.run_count_of_error hr, run_reader_bind, run_bind_of_error first]
    rfl
  | ok a =>
    rw [hr] at first
    have further : m.reader.position ≤ (x.run m.cursor).rest.offset := by
      obtain ⟨n, -, rest⟩ := x.forward m.cursor
      rw [rest]
      exact Nat.le_add_right _ _
    rw [Read.run_count_of_ok hr, run_reader_bind, run_bind_of_ok first, run_reader_bind]
    simp only [Machine.after, Reader.position_moveTo]
    rw [Word.sub_eq further]
    rfl

theorem mirrors_skip (w : WireType) : Mirrors (skip w) w.skip := by
  cases w with
  | varint => exact mirrors_count (mirrors_varint.map _)
  | fixed64 => exact mirrors_count (mirrors_pass 8)
  | delimited => exact mirrors_count (mirrors_bytes.map _)
  | fixed32 => exact mirrors_count (mirrors_pass 4)

theorem mirrors_tag : Mirrors tag Tag.read := by
  apply Mirrors.offset_bind
  intro start
  apply mirrors_varint.attempt_bind
  · exact fun raw => .ofExcept _
  · intro e
    cases e <;> rfl

end Protowire.Guarded
