import Protowire.Read.Bytes

set_option autoImplicit false

/-!
# Reads that take something

A loop ends if every turn takes at least a byte, whatever the turn does besides.
-/

namespace Protowire.Read

variable {α β : Type}

/-- What is read is never nothing, so that a loop over it ends. -/
def Consumes (x : Read α) : Prop :=
  ∀ c a, (x.run c).result = .ok a → (x.run c).rest.remaining < c.remaining

theorem Consumes.bind {x : Read α} (hx : x.Consumes) (f : α → Read β) :
    (x >>= f).Consumes := by
  intro c b h
  cases hr : (x.run c).result with
  | error e => simp [run_bind_of_error hr] at h
  | ok a =>
    rw [run_bind_of_ok hr]
    exact Nat.lt_of_le_of_lt ((f a).forward _).remaining_le (hx c a hr)

/-- A later read that takes something is enough. -/
theorem Consumes.after {x : Read α} {f : α → Read β} (hf : ∀ a, (f a).Consumes) :
    (x >>= f).Consumes := by
  intro c b h
  cases hr : (x.run c).result with
  | error e => simp [run_bind_of_error hr] at h
  | ok a =>
    rw [run_bind_of_ok hr] at h ⊢
    exact Nat.lt_of_lt_of_le (hf a _ b h) (x.forward c).remaining_le

theorem consumes_byte : byte.Consumes := by
  intro c b h
  cases hc : c.unread <;> simp_all [byte, Cursor.remaining, Cursor.drop]

theorem consumes_window {n : Nat} (hn : 0 < n) (inner : Cursor → Logged α) :
    (window n inner).Consumes := by
  intro c a h
  by_cases hc : n ≤ c.remaining
  · simp [window, hc]
    omega
  · simp [window, hc] at h

theorem consumes_varint : varint.Consumes := consumes_byte.bind _

theorem consumes_delimited (inner : Cursor → Logged α) : (delimited inner).Consumes :=
  consumes_varint.bind _

theorem Consumes.mapError {x : Read α} (hx : x.Consumes) (f : Error → Error) :
    (x.mapError f).Consumes := by
  intro c a h
  cases hr : (x.run c).result with
  | error e =>
    have : ((x.mapError f).run c).result = .error (f e) := congrArg (Except.mapError f) hr
    rw [this] at h
    cases h
  | ok b => exact hx c b hr

theorem Consumes.recover {x : Read α} (hx : x.Consumes) {handler : Error → Option (Read α)}
    (hh : ∀ e y, handler e = some y → y.Consumes) : (x.recover handler).Consumes := by
  intro c a h
  simp only [Read.recover] at h ⊢
  cases hr : (x.run c).result with
  | ok b => simpa [hr] using hx c b hr
  | error e =>
    cases hy : handler e with
    | none => simp [hr, hy] at h
    | some y =>
      simp only [hr, hy] at h ⊢
      exact hh e y hy c a h

end Protowire.Read
