import Protowire.Proofs.Decoding.Fits
import Protowire.Proofs.Message.Commutation
import Protowire.Proofs.Read.Failure

set_option autoImplicit false

/-!
# How decoding fails

Decoding through a message's own table fails with what the bytes are to blame for, or with what
the types refuse of updates that suit them. No read refuses a change.
-/

namespace Protowire

/-- Where a replay of suiting updates fails, a read has failed or an update was refused. -/
theorem Message.error_of_replay {schema : Schema} {access : Accessors} {m : Message}
    {t : Transcript (Option Update)}
    (suit : t.All fun o => ∀ u, o = some u → u.Suits schema m.type) {e : Error}
    (failed : (m.replay schema access t).result = .error e) :
    t.values.result = .error e ∨ ∃ (m' : Message) (u : Update), u.Suits schema m'.type ∧
      (m'.update schema access u).result = .error e := by
  induction t generalizing m with
  | finished => cases failed
  | failed e' log =>
    cases failed
    exact .inl rfl
  | turn o log next ih =>
    obtain ⟨first, others⟩ := suit
    have later {m' : Message} (same : m'.type = m.type)
        (failed : (m'.replay schema access next).result = .error e) :
        (Transcript.turn o log next).values.result = .error e ∨
          ∃ (m' : Message) (u : Update), u.Suits schema m'.type ∧
            (m'.update schema access u).result = .error e := by
      rcases ih (same ▸ others) failed with read | refused
      · exact .inl (congrArg ((o :: ·) <$> ·) read)
      · exact .inr refused
    cases o with
    | none => exact later rfl failed
    | some u =>
      cases made : (m.update schema access u).result with
      | error e' =>
        rw [replay_turn_of_error made, made] at failed
        cases failed
        exact .inr ⟨m, u, first u rfl, made⟩
      | ok _ =>
        rw [replay_turn_of_ok made, update_of_made rfl made] at failed
        exact later (type_apply m (some u)) failed

namespace Decoding

variable {schema : Schema} {policy : MalformedTagPolicy} {nested : Nat → Read Message}
  {p : Error → Prop}

theorem failsWith_kind (payload : ∀ e, e.OfPayload → p e) (h : ∀ type, (nested type).FailsWith p)
    (k : Kind) : (k.read nested).FailsWith p := by
  cases k with
  | scalar t => exact (t.failsWith_read.imp payload).bind fun _ => .pure _
  | message type => exact (h type).bind fun _ => .pure _

section

variable (payload : ∀ e, e.OfPayload → p e) (tags : (Tag.next policy).FailsWith p)
  (h : ∀ type, (nested type).FailsWith p)
include payload tags h

theorem failsWith_half (keyKind kind : Kind) : (half policy nested keyKind kind).FailsWith p := by
  apply tags.bind
  intro o
  cases o with
  | none => exact .pure _
  | some tag =>
    simp only
    split
    · exact (failsWith_kind payload h keyKind).bind fun _ => .pure _
    · split
      · exact (failsWith_kind payload h kind).bind fun _ => .pure _
      · have skip := tag.wireType.failsWith_skip.imp payload
        exact (Read.FailsWith.emit _).bind fun _ => skip.bind fun _ => .pure _

theorem failsWith_entry (keyKind kind : Kind) :
    (entry schema policy nested keyKind kind).FailsWith p := by
  apply Read.FailsWith.delimited payload
  intro c e failed
  rw [Logged.result_bind] at failed
  cases found : (halves policy nested keyKind kind c).values.result with
  | error e' =>
    rw [found] at failed
    cases failed
    exact Transcript.failsWith_values (failsWith_half payload tags h keyKind kind) found
  | ok halves =>
    rw [found] at failed
    cases failed

theorem failsWith_update (field : FieldSlot) (form : Form) :
    (update schema policy nested field form).FailsWith p := by
  cases form with
  | single => exact (failsWith_kind payload h field.kind).bind fun _ => .pure _
  | element => exact (failsWith_kind payload h field.kind).bind fun _ => .pure _
  | packed t =>
    have elements : (packed t).FailsWith p :=
      .delimited payload fun c e failed =>
        payload e (Transcript.failsWith_values t.failsWith_read failed)
    exact elements.bind fun _ => .pure _
  | entry keyKind =>
    exact (failsWith_entry payload tags h keyKind field.kind).bind fun _ => .pure _

theorem failsWith_record (table : FieldTable) :
    (record schema policy nested table).FailsWith p := by
  apply tags.bind
  intro o
  cases o with
  | none => exact .pure _
  | some tag =>
    have skip := tag.wireType.failsWith_skip.imp payload
    simp only
    split
    · refine (Read.FailsWith.emit _).bind fun _ => ?_
      split
      · exact (failsWith_update payload tags h _ _).bind fun _ => .pure _
      · exact (Read.FailsWith.emit _).bind fun _ => skip.bind fun _ => .pure _
    · exact skip.bind fun _ => (Read.FailsWith.emit _).bind fun _ => .pure _

/-- Reading records into a message of their type fails with what a record fails with, or with what
an update of theirs is refused with. -/
theorem failsWith_replay (sound : Sound schema nested) {access : Accessors}
    (refused : ∀ (m : Message) (u : Update) e, u.Suits schema m.type →
      (m.update schema access u).result = .error e → p e) {m : Message} {w : Cursor} {e : Error}
    (failed : (m.replay schema access
      (records schema policy nested (schema.table m.type) w)).result = .error e) :
    p e := by
  rcases Message.error_of_replay (all_records sound m.type w) failed with
    read | ⟨m', u, suits, update⟩
  · exact Transcript.failsWith_values (failsWith_record payload tags h _) read
  · exact refused m' u e suits update

end

theorem failsWith_message (payload : ∀ e, e.OfPayload → p e) (schema : Schema)
    (options : DecodeOptions) (access : Accessors)
    (tags : (Tag.next options.malformedTags).FailsWith p)
    (refused : ∀ (m : Message) (u : Update) e, u.Suits schema m.type →
      (m.update schema access u).result = .error e → p e)
    (tooDeep : p (.recursionLimit options.recursionLimit)) (levels type : Nat) :
    (message schema options access levels type).FailsWith p := by
  induction levels generalizing type with
  | zero => exact .fail tooDeep
  | succ levels ih =>
    apply Read.FailsWith.delimited payload
    intro w e failed
    have sound := sound_message schema options access levels
    rw [Decoded.toLogged_eq_error_iff] at failed
    exact failsWith_replay payload tags ih sound refused (m := schema.fresh type) failed

end Decoding

end Protowire
