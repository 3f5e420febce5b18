import Protowire.Decoding
import Protowire.Proofs.Transcript

set_option autoImplicit false

/-!
# Replaying a transcript

A replay goes on from the message that the updates so far have left, up to the first update that is
refused or the first read that failed.
-/

namespace Protowire

namespace Decoded

/-- What `next` leads to, after the events `log`. -/
def after (log : List Event) (next : Decoded) : Decoded := { next with log := log ++ next.log }

variable {log : List Event} {d : Decoded}

@[simp] theorem message_after : (d.after log).message = d.message := rfl

@[simp] theorem result_after : (d.after log).result = d.result := rfl

@[simp] theorem log_after : (d.after log).log = log ++ d.log := rfl

theorem after_after (log log' : List Event) (d : Decoded) :
    (d.after log').after log = d.after (log ++ log') := by
  simp only [after, List.append_assoc]

end Decoded

namespace Message

variable {schema : Schema} {access : Accessors} {m : Message} {u : Update} {log : List Event}
  {next : Transcript (Option Update)}

@[simp] theorem replay_turn_none :
    m.replay schema access (.turn none log next) = (m.replay schema access next).after log := rfl

theorem replay_turn_of_ok (made : (m.update schema access u).result = .ok ()) :
    m.replay schema access (.turn (some u) log next) =
      ((m.update schema access u).message.replay schema access next).after log := by
  simp only [replay, made]
  rfl

theorem replay_turn_of_error {e : Error} (refused : (m.update schema access u).result = .error e) :
    m.replay schema access (.turn (some u) log next) = ⟨m.update schema access u, log⟩ := by
  simp only [replay, refused]

/-- What holds of the message at first and stays so with every update that is read, made or
refused, holds at the end. -/
theorem replay_induction {Inv : Message → Prop} {allowed : Update → Prop}
    (step : ∀ (m : Message) u, Inv m → allowed u → Inv (m.update schema access u).message)
    {t : Transcript (Option Update)} (all : t.All fun o => ∀ u, o = some u → allowed u)
    (h : Inv m) : Inv (m.replay schema access t).message := by
  induction t generalizing m with
  | finished => exact h
  | failed e log => exact h
  | turn o log next ih =>
    obtain ⟨first, others⟩ := all
    cases o with
    | none => exact ih others h
    | some u =>
      have updated := step m u h (first u rfl)
      cases result : (m.update schema access u).result with
      | error e =>
        rw [replay_turn_of_error result]
        exact updated
      | ok _ =>
        rw [replay_turn_of_ok result]
        exact ih others updated

end Message

end Protowire
