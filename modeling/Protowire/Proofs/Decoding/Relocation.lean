import Protowire.Proofs.Decoding.Replay
import Protowire.Proofs.Message.Refusal
import Protowire.Proofs.Transcript.Relocation

set_option autoImplicit false

/-!
# Decoding in another place

Records and the messages nested in them are read in a new place as in the old one, and make the
same updates there.
-/

namespace Protowire

variable {r : Relocation}

def Decoded.relocate (r : Relocation) (d : Decoded) : Decoded :=
  ⟨⟨d.message, d.result.mapError (Error.relocate r)⟩, d.log.map (Event.relocate r)⟩

@[simp] theorem Decoded.message_relocate {d : Decoded} : (d.relocate r).message = d.message := rfl

@[simp] theorem Decoded.result_relocate {d : Decoded} :
    (d.relocate r).result = d.result.mapError (Error.relocate r) := rfl

theorem Decoded.relocate_after {log : List Event} {d : Decoded} :
    (d.after log).relocate r = (d.relocate r).after (log.map (Event.relocate r)) := by
  simp only [relocate, after, List.map_append]

theorem Decoded.toLogged_relocate {d : Decoded} :
    (d.relocate r).toLogged = d.toLogged.relocate r := by
  obtain ⟨⟨message, result⟩, log⟩ := d
  cases result <;> rfl

/-- Refusals mention no place in the input. -/
theorem Error.Refusal.relocate_eq {e : Error} (h : e.Refusal) : e.relocate r = e := by
  cases h <;> rfl

namespace Message

variable {schema : Schema} {access : Accessors} {m : Message} {t more : Transcript (Option Update)}

theorem replay_relocate :
    m.replay schema access (t.relocate r) = (m.replay schema access t).relocate r := by
  induction t generalizing m with
  | finished => rfl
  | failed e log => rfl
  | turn o log next ih =>
    cases o with
    | none =>
      simp only [Transcript.relocate, replay_turn_none, ih, Decoded.relocate_after]
    | some u =>
      rw [Transcript.relocate]
      cases result : (m.update schema access u).result with
      | error e =>
        rw [replay_turn_of_error result, replay_turn_of_error result, Decoded.relocate, result]
        change _ = Decoded.mk ⟨_, .error (e.relocate r)⟩ _
        rw [(refusal_of_update result).relocate_eq, ← result]
      | ok _ =>
        rw [replay_turn_of_ok result, replay_turn_of_ok result, ih, Decoded.relocate_after]

/-- What was replayed without an error went to its end, and a longer transcript goes on there. -/
theorem replay_append (done : (m.replay schema access t).result = .ok ()) :
    m.replay schema access (t.append more) =
      ((m.replay schema access t).message.replay schema access more).after
        (m.replay schema access t).log := by
  induction t generalizing m with
  | finished => rfl
  | failed e log => cases done
  | turn o log next ih =>
    cases o with
    | none =>
      rw [replay_turn_none, Decoded.result_after] at done
      rw [Transcript.append, replay_turn_none, replay_turn_none, ih done, Decoded.after_after]
      rfl
    | some u =>
      cases result : (m.update schema access u).result with
      | error e =>
        rw [replay_turn_of_error result, result] at done
        cases done
      | ok _ =>
        rw [replay_turn_of_ok result, Decoded.result_after] at done
        rw [Transcript.append, replay_turn_of_ok result, replay_turn_of_ok result, ih done,
          Decoded.after_after]
        rfl

theorem finishes_of_replay (done : (m.replay schema access t).result = .ok ()) : t.Finishes := by
  induction t generalizing m with
  | finished => trivial
  | failed e log => cases done
  | turn o log next ih =>
    cases o with
    | none => exact ih done
    | some u =>
      cases result : (m.update schema access u).result with
      | error e =>
        rw [replay_turn_of_error result, result] at done
        cases done
      | ok _ =>
        rw [replay_turn_of_ok result, Decoded.result_after] at done
        exact ih done

end Message

namespace Decoding

variable {schema : Schema} {policy : MalformedTagPolicy} {nested nested' : Nat → Read Message}

theorem follows_kind (h : ∀ type, Read.Follows r (nested type) (nested' type)) (k : Kind) :
    Read.Follows r (k.read nested) (k.read nested') := by
  cases k with
  | scalar t => exact t.follows_read.bind fun _ => .pure _
  | message type => exact (h type).bind fun _ => .pure _

theorem follows_half (h : ∀ type, Read.Follows r (nested type) (nested' type))
    (keyKind kind : Kind) :
    Read.Follows r (half policy nested keyKind kind) (half policy nested' keyKind kind) := by
  apply (Tag.follows_next policy).bind
  intro o
  cases o with
  | none => exact .pure _
  | some tag =>
    simp only
    split
    · exact (follows_kind h keyKind).bind fun _ => .pure _
    · split
      · exact (follows_kind h kind).bind fun _ => .pure _
      · exact (Read.Follows.emit _).bind fun _ => tag.wireType.follows_skip.bind fun _ => .pure _

theorem follows_entry (h : ∀ type, Read.Follows r (nested type) (nested' type))
    (keyKind kind : Kind) :
    Read.Follows r (entry schema policy nested keyKind kind)
      (entry schema policy nested' keyKind kind) := by
  apply Read.Follows.delimited
  intro w
  have found : halves policy nested' keyKind kind (w.relocate r []) =
      (halves policy nested keyKind kind w).relocate r :=
    Read.untilEnd_relocate _ _ (follows_half h keyKind kind) w
  rw [found, Transcript.values_relocate, Logged.relocate_bind]
  rfl

theorem follows_packed (t : ScalarType) : Read.Follows r (packed t) (packed t) := by
  apply Read.Follows.delimited
  intro w
  rw [Read.untilEnd_relocate _ _ t.follows_read w, Transcript.values_relocate]

theorem follows_update (h : ∀ type, Read.Follows r (nested type) (nested' type))
    (field : FieldSlot) (form : Form) :
    Read.Follows r (update schema policy nested field form)
      (update schema policy nested' field form) := by
  cases form with
  | single => exact (follows_kind h field.kind).bind fun _ => .pure _
  | element => exact (follows_kind h field.kind).bind fun _ => .pure _
  | packed t => exact (follows_packed t).bind fun _ => .pure _
  | entry keyKind => exact (follows_entry h keyKind field.kind).bind fun _ => .pure _

theorem follows_record (h : ∀ type, Read.Follows r (nested type) (nested' type))
    (table : FieldTable) :
    Read.Follows r (record schema policy nested table) (record schema policy nested' table) := by
  apply (Tag.follows_next policy).bind
  intro o
  cases o with
  | none => exact .pure _
  | some tag =>
    simp only
    split
    · refine (Read.Follows.emit _).bind fun _ => ?_
      split
      · exact (follows_update h _ _).bind fun _ => .pure _
      · refine (Read.Follows.emit _).bind fun _ => ?_
        exact tag.wireType.follows_skip.bind fun _ => .pure _
    · refine tag.wireType.follows_skip.bind fun _ => ?_
      exact (Read.Follows.emit _).bind fun _ => .pure _

theorem records_relocate (h : ∀ type, Read.Follows r (nested type) (nested' type))
    (table : FieldTable) (w : Cursor) :
    records schema policy nested' table (w.relocate r []) =
      (records schema policy nested table w).relocate r :=
  Read.untilEnd_relocate _ _ (follows_record h table) w

/-- Nested messages are read alike under two limits as long as the levels left are the same. -/
theorem follows_message (schema : Schema) (policy : MalformedTagPolicy) (access : Accessors)
    {limit limit' : UInt32} (renamed : r.limit limit = limit') (levels type : Nat) :
    Read.Follows r (message schema ⟨policy, limit⟩ access levels type)
      (message schema ⟨policy, limit'⟩ access levels type) := by
  subst renamed
  induction levels generalizing type with
  | zero => exact .fail _
  | succ levels ih =>
    apply Read.Follows.delimited
    intro w
    rw [records_relocate ih, Message.replay_relocate, Decoded.toLogged_relocate]

end Decoding

end Protowire
