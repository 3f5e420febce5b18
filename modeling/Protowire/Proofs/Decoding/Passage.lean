import Protowire.Proofs.Decoding.Replay
import Protowire.Proofs.Message.Refusal
import Protowire.Proofs.Read.Agreement
import Protowire.Proofs.Read.Failure

set_option autoImplicit false

/-!
# Passing from record to record

Between two records decoding is at a cursor with a message in hand. It passes through such states
one after the other, and one that fails in a read stops at the last of them.
-/

namespace Protowire.Message

variable (schema : Schema) (access : Accessors) (x : Read (Option Update))

/-- Turns of `x` lead from the message at the cursor to the other message at the other cursor. -/
inductive Passes : Message → Cursor → Message → Cursor → Prop
  | stay (m : Message) (c : Cursor) : Passes m c m c
  | skip {m m' : Message} {c c' : Cursor} :
      c.unread ≠ [] → (x.run c).result = .ok none →
      Passes m (x.run c).rest m' c' → Passes m c m' c'
  | make {m m' : Message} {c c' : Cursor} {u : Update} :
      c.unread ≠ [] → (x.run c).result = .ok (some u) →
      (m.update schema access u).result = .ok () →
      Passes (m.update schema access u).message (x.run c).rest m' c' → Passes m c m' c'

variable {schema access x} {m m' : Message} {c c' : Cursor}

/-- What comes of a replay is what comes of it from any state that it passes through. -/
theorem Passes.replay (h : Passes schema access x m c m' c') (hx : x.Consumes) :
    ∃ log, m.replay schema access (x.untilEnd hx c) =
      (m'.replay schema access (x.untilEnd hx c')).after log := by
  induction h with
  | stay m c => exact ⟨[], rfl⟩
  | @skip m m' c c' more stepped _ ih =>
    obtain ⟨log, later⟩ := ih
    refine ⟨(x.run c).log ++ log, ?_⟩
    rw [Read.untilEnd_of_ok more stepped, replay_turn_none, later, Decoded.after_after]
  | @make m m' c c' u more read made _ ih =>
    obtain ⟨log, later⟩ := ih
    refine ⟨(x.run c).log ++ log, ?_⟩
    rw [Read.untilEnd_of_ok more read, replay_turn_of_ok made, later, Decoded.after_after]

/-- A replay that ends in an error which no change is refused with has passed to the record that
could not be read, and leaves the message it had there. -/
theorem exists_passes_of_error {hx : x.Consumes} {e : Error} (read : ¬ e.Refusal)
    (failed : (m.replay schema access (x.untilEnd hx c)).result = .error e) :
    ∃ c', Passes schema access x m c (m.replay schema access (x.untilEnd hx c)).message c' ∧
      (x.run c').result = .error e := by
  -- on the bytes left, which are fewer after each turn
  induction length : c.remaining using Nat.strongRecOn generalizing c m with
  | ind n ih =>
    by_cases empty : c.unread = []
    · rw [Read.untilEnd_of_nil empty] at failed
      cases failed
    · cases turn : (x.run c).result with
      | error e' =>
        rw [Read.untilEnd_of_error empty turn] at failed ⊢
        cases failed
        exact ⟨c, .stay m c, turn⟩
      | ok o =>
        rw [Read.untilEnd_of_ok empty turn] at failed ⊢
        have further := length ▸ hx c o turn
        cases o with
        | none =>
          obtain ⟨c', passes, fails⟩ := ih _ further failed rfl
          exact ⟨c', .skip empty turn passes, fails⟩
        | some u =>
          cases result : (m.update schema access u).result with
          | error e' =>
            rw [replay_turn_of_error result, result] at failed
            cases failed
            exact absurd (refusal_of_update result) read
          | ok _ =>
            rw [replay_turn_of_ok result] at failed ⊢
            obtain ⟨c', passes, fails⟩ := ih _ further failed rfl
            exact ⟨c', .make empty turn result passes, fails⟩

/-- Reads that agree up to an error pass through the same states. -/
theorem Passes.of_agrees {y : Read (Option Update)} {size : Nat} {p : Error → Prop}
    (agrees : Read.Agrees size p x y) (short : c.remaining < size)
    (h : Passes schema access x m c m' c') : Passes schema access y m c m' c' := by
  -- a turn that was read did not fail, so it is the same for both
  have turn {c : Cursor} {o : Option Update} (short : c.remaining < size)
      (value : (x.run c).result = .ok o) : y.run c = x.run c := by
    rcases agrees c short with ⟨e, failed, -⟩ | same
    · rw [value] at failed
      cases failed
    · exact same
  induction h with
  | stay m c => exact .stay m c
  | @skip m m' c c' more stepped _ ih =>
    have same := turn short stepped
    have others := ih (Nat.lt_of_le_of_lt (x.forward c).remaining_le short)
    rw [← same] at stepped others
    exact .skip more stepped others
  | @make m m' c c' u more read made _ ih =>
    have same := turn short read
    have others := ih (Nat.lt_of_le_of_lt (x.forward c).remaining_le short)
    rw [← same] at read others
    exact .make more read made others

/-- A replay ends in an error of a read or in a refusal. -/
theorem failsWith_replay {hx : x.Consumes} {p : Error → Prop} (h : x.FailsWith p)
    (refusal : ∀ e, e.Refusal → p e) {e : Error}
    (failed : (m.replay schema access (x.untilEnd hx c)).result = .error e) : p e := by
  by_cases refused : e.Refusal
  · exact refusal e refused
  · obtain ⟨c', -, fails⟩ := exists_passes_of_error refused failed
    exact h c' e fails

end Protowire.Message
