import Protowire.Proofs.Decoding.Replay
import Protowire.Proofs.Finding
import Protowire.Proofs.Read.Logs

set_option autoImplicit false

/-!
# What decoding logs

Every event in the log of a decoder, also of one that fails, is about something that it met in the
bytes. Making the updates logs nothing.
-/

namespace Protowire

/-- A replay may stop before the end of the transcript, but adds nothing. -/
theorem Message.log_replay_subset {schema : Schema} {access : Accessors} {m : Message}
    {t : Transcript (Option Update)} : (m.replay schema access t).log ⊆ t.values.log := by
  induction t generalizing m with
  | finished => exact List.nil_subset _
  | failed e log => exact List.Subset.refl _
  | turn o log next ih =>
    have further {m' : Message} :
        ((m'.replay schema access next).after log).log ⊆ log ++ next.values.log :=
      List.append_subset.2 ⟨List.subset_append_left log _,
        List.Subset.trans ih (List.subset_append_right log _)⟩
    cases o with
    | none => exact further
    | some u =>
      cases made : (m.update schema access u).result with
      | error e =>
        rw [replay_turn_of_error made]
        exact List.subset_append_left log _
      | ok _ =>
        rw [replay_turn_of_ok made]
        exact further

theorem Logged.log_bind_pure {α β : Type} (x : Logged α) (f : α → β) :
    (x >>= fun a => pure (f a)).log = x.log := by
  cases h : x.result with
  | error e => rw [bind_of_error h]
  | ok a => rw [bind_of_ok h, log_pure, List.append_nil]

namespace Decoding

open Read Event

variable {schema : Schema} {policy : MalformedTagPolicy} {nested : Nat → Read Message}

theorem logs_next (policy : MalformedTagPolicy) : (Tag.next policy).Logs IsFinding :=
  Tag.logs_next policy fun _ _ => ⟨.malformed, rfl⟩

section

variable (h : ∀ type, (nested type).Logs IsFinding)
include h

theorem logs_kind (k : Kind) : (k.read nested).Logs IsFinding := by
  cases k with
  | scalar t => exact t.logs_read.bind_pure _
  | message type => exact (h type).bind_pure _

theorem logs_half (keyKind kind : Kind) : (half policy nested keyKind kind).Logs IsFinding := by
  refine (logs_next policy).bind fun o => ?_
  cases o with
  | none => exact .pure none
  | some tag =>
    simp only
    split
    · exact (logs_kind h keyKind).bind_pure _
    · split
      · exact (logs_kind h kind).bind_pure _
      · exact (Logs.emit ⟨.stray, rfl⟩).bind fun _ => tag.wireType.logs_skip.bind_pure _

theorem logs_entry (keyKind kind : Kind) :
    (entry schema policy nested keyKind kind).Logs IsFinding := by
  refine Logs.delimited fun w => ?_
  rw [Logged.log_bind_pure]
  exact (logs_half h keyKind kind).values_untilEnd _ w

theorem logs_update (field : FieldSlot) (form : Form) :
    (update schema policy nested field form).Logs IsFinding := by
  cases form with
  | single => exact (logs_kind h field.kind).bind_pure _
  | element => exact (logs_kind h field.kind).bind_pure _
  | packed t => exact (Logs.delimited (t.logs_read.values_untilEnd t.consumes_read)).bind_pure _
  | entry keyKind => exact (logs_entry h keyKind field.kind).bind_pure _

theorem logs_record (table : FieldTable) :
    (record schema policy nested table).Logs IsFinding := by
  refine (logs_next policy).bind fun o => ?_
  cases o with
  | none => exact .pure none
  | some tag =>
    simp only
    split
    · refine (Logs.emit ⟨.known, rfl⟩).bind fun _ => ?_
      split
      · exact (logs_update h _ _).bind_pure some
      · exact (Logs.emit ⟨.mismatched, rfl⟩).bind fun _ => tag.wireType.logs_skip.bind_pure _
    · exact tag.wireType.logs_skip.bind fun _ =>
        (Logs.emit ⟨.unknown, rfl⟩).bind fun _ => .pure none

/-- The log of a message read by its records. -/
theorem logs_replay (access : Accessors) (table : FieldTable) (m : Message) (w : Cursor) :
    ∀ e ∈ (m.replay schema access (records schema policy nested table w)).log, e.IsFinding :=
  fun e he => (logs_record h table).values_untilEnd _ w e (Message.log_replay_subset he)

end

theorem logs_message (schema : Schema) (options : DecodeOptions) (access : Accessors)
    (levels type : Nat) : (message schema options access levels type).Logs IsFinding := by
  induction levels generalizing type with
  | zero => exact Logs.fail _
  | succ levels ih => exact Logs.delimited (logs_replay ih access _ _)

end Decoding

/-- There is something in the bytes for everything in the log. -/
theorem Message.exists_shows_merge (schema : Schema) (options : DecodeOptions) (access : Accessors)
    (table : FieldTable) (m : Message) (bytes : Bytes) :
    ∃ found, Shows (m.merge schema options access table bytes).log found :=
  have nested := Decoding.logs_message schema options access options.recursionLimit.toNat
  exists_shows (Decoding.logs_replay nested access table m _)

end Protowire
