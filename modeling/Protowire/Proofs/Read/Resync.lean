import Protowire.Proofs.Read
import Protowire.Read.Tag

set_option autoImplicit false

/-!
# Stepping over a malformed tag

A malformed tag may take up to ten bytes to find out about. Stepping over it goes back to where it
began and costs one of them.
-/

namespace Protowire

namespace Read

variable {α β : Type} {c : Cursor}

theorem rest_bind_ofExcept (x : Read α) (f : α → Except Error β) (c : Cursor) :
    ((x >>= fun a => ofExcept (f a)).run c).rest = (x.run c).rest := by
  cases value : (x.run c).result with
  | error e => rw [run_bind_of_error value]
  | ok a =>
    rw [run_bind_of_ok value]
    rfl

theorem result_mapError_bind_of_error {x : Read α} {f : α → Read β} {change : Error → Error}
    {e : Error} (failed : (x.run c).result = .error e) :
    ((x.mapError change >>= f).run c).result = .error (change e) := by
  have changed : ((x.mapError change).run c).result = .error (change e) :=
    congrArg (Except.mapError change) failed
  rw [run_bind_of_error changed]

theorem run_byte_cons {b : UInt8} {after : Bytes} (unread : c.unread = b :: after) :
    byte.run c = ⟨⟨.ok b, []⟩, c.drop 1⟩ := by
  simp only [byte, unread]

theorem run_groups_nil (n : Nat) (empty : c.unread = []) :
    (groups (n + 1)).run c = ⟨⟨.error (.underrun 1 0), []⟩, c⟩ := by
  have failed : byte.run c = ⟨⟨.error (.underrun 1 0), []⟩, c⟩ := by simp only [byte, empty]
  rw [groups, run_bind_of_error (e := .underrun 1 0) (by rw [failed]), failed]

theorem run_groups_low {b : UInt8} {after : Bytes} (n : Nat) (unread : c.unread = b :: after)
    (low : b < 128) : (groups (n + 1)).run c = ⟨⟨.ok b.toUInt64, []⟩, c.drop 1⟩ := by
  have first := run_byte_cons unread
  rw [groups, run_bind_of_ok (a := b) (by rw [first]), first]
  simp only [if_pos low]
  rfl

theorem run_groups_high {b : UInt8} {after : Bytes} (n : Nat) (unread : c.unread = b :: after)
    (high : 128 ≤ b) : (groups (n + 1)).run c =
      (do return b.toUInt64 % 128 + 128 * (← groups n) : Read UInt64).run (c.drop 1) := by
  have first := run_byte_cons unread
  rw [groups, run_bind_of_ok (a := b) (by rw [first]), first]
  simp only [if_neg (UInt8.not_lt.2 high)]
  rfl

theorem remaining_le_groups (n : Nat) (c : Cursor) :
    c.remaining ≤ ((groups n).run c).rest.remaining + n := by
  induction n generalizing c with
  | zero => exact Nat.le_refl _
  | succ n ih =>
    cases unread : c.unread with
    | nil =>
      have empty : c.remaining = 0 := by rw [Cursor.remaining, unread, List.length_nil]
      omega
    | cons b after =>
      have others := ih (c.drop 1)
      rw [Cursor.remaining_drop] at others
      by_cases last : b < 128
      · rw [run_groups_low n unread last, Cursor.remaining_drop]
        omega
      · rw [run_groups_high n unread (UInt8.not_lt.1 last)]
        cases high : ((groups n).run (c.drop 1)).result with
        | error e =>
          rw [run_bind_of_error high]
          simp only
          omega
        | ok v =>
          rw [run_bind_of_ok high, run_pure]
          simp only
          omega

theorem varint_of_nil (empty : c.unread = []) :
    (varint.run c).result = .error (.underrun 1 0) := by
  rw [varint, run_groups_nil 9 empty]

/-- Nothing is read and one byte is taken. -/
def StepsOver (x : Read (Option α)) (c : Cursor) : Prop :=
  (x.run c).result = .ok none ∧ (x.run c).rest = c.drop 1

theorem stepsOver_bind {x : Read (Option α)} {f : Option α → Read (Option β)}
    (h : x.StepsOver c) (hf : f none = pure none) : (x >>= f).StepsOver c := by
  obtain ⟨result, rest⟩ := h
  rw [StepsOver, run_bind_of_ok result, hf]
  exact ⟨rfl, rest⟩

end Read

namespace Tag

variable {c : Cursor}

theorem rest_read (c : Cursor) : (read.run c).rest = (Read.varint.run c).rest :=
  Read.rest_bind_ofExcept (Read.varint.mapError _) _ c

theorem next_of_ok {policy : MalformedTagPolicy} {t : Tag} (found : (read.run c).result = .ok t) :
    (next policy).run c = ⟨⟨.ok (some t), (read.run c).log⟩, (read.run c).rest⟩ := by
  have tagged : (some <$> read).run c = ⟨⟨.ok (some t), (read.run c).log⟩, (read.run c).rest⟩ := by
    rw [map_eq_pure_bind, Read.run_bind_of_ok found]
    exact Reading.ext rfl (List.append_nil _) rfl
  change (Read.recover _ _).run c = _
  simp only [Read.recover, tagged]

theorem next_of_error {policy : MalformedTagPolicy} {e : Error}
    (failed : (read.run c).result = .error e)
    (unhandled : policy = .resync → ∀ offset raw, e ≠ .malformedTag offset raw) :
    (next policy).run c = ⟨⟨.error e, (read.run c).log⟩, (read.run c).rest⟩ := by
  have untagged : (some <$> read).run c =
      ⟨⟨.error e, (read.run c).log⟩, (read.run c).rest⟩ := by
    rw [map_eq_pure_bind, Read.run_bind_of_error failed]
  change (Read.recover _ _).run c = _
  simp only [Read.recover, untagged]
  cases e with
  | malformedTag offset raw =>
    cases policy with
    | reject => rfl
    | resync => exact absurd rfl (unhandled rfl offset raw)
  | _ => rfl

variable {offset : Nat} {raw : UInt64}

theorem unread_ne_nil_of_malformed
    (malformed : (read.run c).result = .error (.malformedTag offset raw)) : c.unread ≠ [] := by
  intro empty
  have failed : (read.run c).result = .error (.underrun 1 0) :=
    Read.result_mapError_bind_of_error (Read.varint_of_nil empty)
  rw [failed] at malformed
  cases malformed

theorem spent_read_le (c : Cursor) : c.remaining ≤ (read.run c).rest.remaining + 10 := by
  rw [rest_read]
  exact Read.remaining_le_groups 10 c

/-- The next tag is looked for one byte behind the malformed one. -/
theorem next_resync_of_malformed
    (malformed : (read.run c).result = .error (.malformedTag offset raw)) :
    (next .resync).run c =
      ⟨⟨.ok none, (read.run c).log ++ [.malformedTag raw offset]⟩, c.drop 1⟩ := by
  obtain ⟨b, after, unread⟩ := List.exists_cons_of_ne_nil (unread_ne_nil_of_malformed malformed)
  have failed : ((some <$> read).run c).result = .error (.malformedTag offset raw) := by
    rw [map_eq_pure_bind, Read.run_bind_of_error malformed]
  have stepped : (do
      let _ ← Read.byte
      Read.emit (.malformedTag raw offset)
      return none : Read (Option Tag)).run c =
        ⟨⟨.ok none, [.malformedTag raw offset]⟩, c.drop 1⟩ := by
    have first := Read.run_byte_cons unread
    have value : (Read.byte.run c).result = .ok b := by rw [first]
    rw [Read.run_bind_of_ok value, first]
    rfl
  have log : ((some <$> read).run c).log = (read.run c).log := by
    rw [map_eq_pure_bind, Read.run_bind_of_error malformed]
  change (Read.recover _ _).run c = _
  simp only [Read.recover, failed, log, stepped]

/-- Up to ten bytes were looked at, and one of them is taken. -/
theorem stepsOver_next (malformed : (read.run c).result = .error (.malformedTag offset raw)) :
    (next .resync).StepsOver c := by
  rw [Read.StepsOver, next_resync_of_malformed malformed]
  exact ⟨rfl, rfl⟩

end Tag

end Protowire
