import Protowire.Bytes

set_option autoImplicit false

/-!
# Cursors

A place in the input: the bytes still unread in the window in force, and the absolute offset of the
first of them. Nothing can be read outside the window, because a cursor does not hold it.
-/

namespace Protowire

structure Cursor where
  offset : Nat
  unread : Bytes
  deriving DecidableEq

namespace Cursor

def ofBytes (bytes : Bytes) : Cursor := ⟨0, bytes⟩

def remaining (c : Cursor) : Nat := c.unread.length

def drop (c : Cursor) (n : Nat) : Cursor := ⟨c.offset + n, c.unread.drop n⟩

/-- A window of the next `n` bytes. -/
def take (c : Cursor) (n : Nat) : Cursor := ⟨c.offset, c.unread.take n⟩

/-- `d` is `c` moved forward over bytes that were there. -/
def Reaches (c d : Cursor) : Prop := ∃ n ≤ c.remaining, d = c.drop n

@[simp] theorem drop_zero (c : Cursor) : c.drop 0 = c := rfl

@[simp] theorem drop_drop (c : Cursor) (m n : Nat) : (c.drop m).drop n = c.drop (m + n) := by
  simp [drop, Nat.add_assoc]

@[simp] theorem remaining_drop (c : Cursor) (n : Nat) :
    (c.drop n).remaining = c.remaining - n := by
  simp [drop, remaining]

theorem remaining_take {c : Cursor} {n : Nat} (h : n ≤ c.remaining) :
    (c.take n).remaining = n := by
  simp only [take, remaining, List.length_take] at h ⊢
  omega

namespace Reaches

theorem refl (c : Cursor) : c.Reaches c := ⟨0, Nat.zero_le _, rfl⟩

theorem trans {a b c : Cursor} : a.Reaches b → b.Reaches c → a.Reaches c := by
  rintro ⟨m, hm, rfl⟩ ⟨n, hn, rfl⟩
  rw [remaining_drop] at hn
  exact ⟨m + n, by omega, drop_drop a m n⟩

theorem remaining_le {c d : Cursor} : c.Reaches d → d.remaining ≤ c.remaining := by
  rintro ⟨n, _, rfl⟩
  simp

end Reaches

end Cursor

end Protowire
