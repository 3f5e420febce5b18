import Protowire.Proofs.Read.Relocation
import Protowire.Proofs.Transcript

set_option autoImplicit false

/-!
# Loops in another place

A loop over a longer input goes through the bytes in front as if they were all, and then through
the rest.
-/

namespace Protowire

variable {α : Type}

/-- The offset of the end of the window. No read changes it. -/
def Cursor.stop (c : Cursor) : Nat := c.offset + c.remaining

theorem Cursor.Reaches.stop_eq {c d : Cursor} (h : c.Reaches d) : d.stop = c.stop := by
  obtain ⟨n, inside, rfl⟩ := h
  simp only [stop, remaining_drop]
  simp only [drop]
  omega

namespace Transcript

def relocate (r : Relocation) : Transcript α → Transcript α
  | finished => finished
  | failed e log => failed (e.relocate r) (log.map (Event.relocate r))
  | turn a log next => turn a (log.map (Event.relocate r)) (next.relocate r)

/-- The second one comes where the first one reaches the end. -/
def append : Transcript α → Transcript α → Transcript α
  | finished, more => more
  | failed e log, _ => failed e log
  | turn a log next, more => turn a log (next.append more)

/-- No read fails on the way to the end. -/
def Finishes : Transcript α → Prop
  | finished => True
  | failed _ _ => False
  | turn _ _ next => next.Finishes

variable {r : Relocation} {t : Transcript α}

@[simp] theorem append_finished : t.append finished = t := by
  induction t with
  | finished => rfl
  | failed e log => rfl
  | turn a log next ih => rw [append, ih]

@[simp] theorem relocate_shift_zero : t.relocate (.shift 0) = t := by
  induction t with
  | finished => rfl
  | failed e log => simp only [relocate, Error.relocate_shift_zero, Event.map_relocate_shift_zero]
  | turn a log next ih => simp only [relocate, ih, Event.map_relocate_shift_zero]

theorem values_relocate : (t.relocate r).values = t.values.relocate r := by
  induction t with
  | finished => rfl
  | failed e log => rfl
  | turn a log next ih =>
    simp only [relocate, values, ih, Logged.relocate, List.map_append]
    cases next.values.result <;> rfl

end Transcript

namespace Read

variable {r : Relocation} {x y : Read α} (hx : x.Consumes) (hy : y.Consumes)

/-- A loop does in the new place what it does in the old one, and goes on with the bytes behind. It
gets there only if nothing fails before. -/
theorem untilEnd_relocate_append (follows : Follows r x y) (c : Cursor) (after : Bytes)
    (h : after = [] ∨ (x.untilEnd hx c).Finishes) :
    y.untilEnd hy (c.relocate r after) =
      ((x.untilEnd hx c).relocate r).append (y.untilEnd hy ⟨c.stop + r.distance, after⟩) := by
  induction length : c.remaining using Nat.strongRecOn generalizing c with
  | ind n ih =>
    by_cases empty : c.unread = []
    · rw [untilEnd_of_nil empty]
      have stop : c.stop = c.offset := by simp [Cursor.stop, Cursor.remaining, empty]
      simp only [Cursor.relocate, empty, List.nil_append, stop]
      rfl
    · have more : (c.relocate r after).unread ≠ [] := List.append_ne_nil_of_left_ne_nil empty after
      cases hr : (x.run c).result with
      | error e =>
        rw [untilEnd_of_error empty hr] at h ⊢
        obtain rfl := h.resolve_right id
        have run := follows c [] fun _ => rfl
        have failed : (y.run (c.relocate r [])).result = .error (e.relocate r) := by
          rw [run, Reading.result_relocate, hr]
          rfl
        rw [untilEnd_of_error more failed, run]
        rfl
      | ok a =>
        rw [untilEnd_of_ok empty hr] at h ⊢
        have run := follows c after fun isShort => (Logged.not_isShort_of_ok hr isShort).elim
        have value : (y.run (c.relocate r after)).result = .ok a := by
          rw [run, Reading.result_relocate, hr]
          rfl
        have others := ih _ (length ▸ hx c a hr) (x.run c).rest h rfl
        rw [untilEnd_of_ok more value, run, Reading.rest_relocate, others,
          (x.forward c).stop_eq]
        rfl

theorem untilEnd_relocate (follows : Follows r x y) (c : Cursor) :
    y.untilEnd hy (c.relocate r []) = (x.untilEnd hx c).relocate r := by
  have whole := untilEnd_relocate_append hx hy follows c [] (.inl rfl)
  have nothing : y.untilEnd hy ⟨c.stop + r.distance, []⟩ = .finished := untilEnd_of_nil rfl
  rwa [nothing, Transcript.append_finished] at whole

end Read

end Protowire
