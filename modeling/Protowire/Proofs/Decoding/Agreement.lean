import Protowire.Proofs.Decoding.Replay
import Protowire.Proofs.Message.Access
import Protowire.Proofs.Read.Agreement

set_option autoImplicit false

/-!
# Decoding that agrees up to an error

Two decoders that differ in how they read tags or nested messages, or in what they let be changed,
differ no further. Where tags, nested messages and changes agree up to an error, so do records and
whole inputs.
-/

namespace Protowire

variable {schema : Schema} {p : Error → Prop}

/-- `access'` makes of an update what `access` does, unless that refuses it with an error in `p`. -/
def Accessors.Agrees (schema : Schema) (p : Error → Prop) (access access' : Accessors) : Prop :=
  ∀ (m : Message) (u : Update),
    (∃ e, (m.update schema access u).result = .error e ∧ p e) ∨
      m.update schema access' u = m.update schema access u

theorem Accessors.agrees_refl (access : Accessors) : access.Agrees schema p access :=
  fun _ _ => .inr rfl

/-- What is refused without the full access need not be refused with it. -/
theorem Accessors.agrees_full (h : ∀ slot, p (.unsupportedCardinality slot)) (access : Accessors) :
    access.Agrees schema p .full := by
  intro m u
  by_cases permits : (access m.type).Permits u
  · exact .inr (Message.update_of_permits permits).symm
  · left
    rw [Message.update_of_not_permits permits]
    exact ⟨_, rfl, h u.slot⟩

namespace Message

variable {access access' : Accessors} (changes : access.Agrees schema p access')
include changes

theorem replay_turn_agrees {next next' : Transcript (Option Update)}
    (ih : ∀ m : Message, (∃ e, (m.replay schema access next).result = .error e ∧ p e) ∨
      m.replay schema access' next' = m.replay schema access next)
    (m : Message) (o : Option Update) (log : List Event) :
    (∃ e, (m.replay schema access (.turn o log next)).result = .error e ∧ p e) ∨
      m.replay schema access' (.turn o log next') =
        m.replay schema access (.turn o log next) := by
  cases o with
  | none =>
    rw [replay_turn_none, replay_turn_none, Decoded.result_after]
    rcases ih m with failed | same
    · exact .inl failed
    · right
      rw [same]
  | some u =>
    cases result : (m.update schema access u).result with
    | error e =>
      rw [replay_turn_of_error result]
      rcases changes m u with failed | same
      · exact .inl failed
      · right
        rw [replay_turn_of_error (same ▸ result), same]
    | ok _ =>
      rcases changes m u with ⟨e, failed, -⟩ | same
      · cases result.symm.trans failed
      · rw [replay_turn_of_ok result, replay_turn_of_ok (same ▸ result), same, Decoded.result_after]
        rcases ih (m.update schema access u).message with failed | same
        · exact .inl failed
        · right
          rw [same]

theorem replay_agrees (t : Transcript (Option Update)) (m : Message) :
    (∃ e, (m.replay schema access t).result = .error e ∧ p e) ∨
      m.replay schema access' t = m.replay schema access t := by
  induction t generalizing m with
  | finished => exact .inr rfl
  | failed e log => exact .inr rfl
  | turn o log next ih => exact replay_turn_agrees changes ih m o log

theorem replay_of_forks {t t' : Transcript (Option Update)} (h : t.Forks p t') (m : Message) :
    (∃ e, (m.replay schema access t).result = .error e ∧ p e) ∨
      m.replay schema access' t' = m.replay schema access t := by
  induction h generalizing m with
  | same t => exact replay_agrees changes t m
  | apart he => exact .inl ⟨_, rfl, he⟩
  | turn _ ih => exact replay_turn_agrees changes ih m _ _

end Message

theorem Decoded.toLogged_agrees {d d' : Decoded}
    (h : (∃ e, d.result = .error e ∧ p e) ∨ d' = d) : d.toLogged.Agrees p d'.toLogged := by
  rcases h with ⟨e, failed, he⟩ | rfl
  · left
    refine ⟨e, ?_, he⟩
    rw [toLogged, failed]
    rfl
  · exact .inr rfl

namespace Decoding

variable {policy policy' : MalformedTagPolicy} {access access' : Accessors}
  {nested nested' : Nat → Read Message} {size : Nat}

theorem agrees_kind (h : ∀ type, Read.Agrees size p (nested type) (nested' type)) (k : Kind) :
    Read.Agrees size p (k.read nested) (k.read nested') := by
  cases k with
  | scalar t => exact .refl _
  | message type => exact (h type).bind fun _ => .refl _

section

variable (tags : Read.Agrees size p (Tag.next policy) (Tag.next policy'))
  (h : ∀ type, Read.Agrees size p (nested type) (nested' type))
include tags h

theorem agrees_half (keyKind kind : Kind) :
    Read.Agrees size p (half policy nested keyKind kind) (half policy' nested' keyKind kind) := by
  apply tags.bind
  intro o
  cases o with
  | none => exact .refl _
  | some tag =>
    simp only
    split
    · exact (agrees_kind h keyKind).bind fun _ => .refl _
    · split
      · exact (agrees_kind h kind).bind fun _ => .refl _
      · exact .refl _

theorem agrees_entry (keyKind kind : Kind) :
    Read.Agrees size p (entry schema policy nested keyKind kind)
      (entry schema policy' nested' keyKind kind) := by
  refine Read.Agrees.mono (.delimited fun w short => ?_) (Nat.le_succ size)
  have found : (halves policy nested keyKind kind w).Forks p
      (halves policy' nested' keyKind kind w) :=
    (agrees_half tags h keyKind kind).untilEnd _ _ short
  exact found.values.bind _

theorem agrees_update (field : FieldSlot) (form : Form) :
    Read.Agrees size p (update schema policy nested field form)
      (update schema policy' nested' field form) := by
  cases form with
  | single => exact (agrees_kind h field.kind).bind fun _ => .refl _
  | element => exact (agrees_kind h field.kind).bind fun _ => .refl _
  | packed t => exact .refl _
  | entry keyKind => exact (agrees_entry tags h keyKind field.kind).bind fun _ => .refl _

theorem agrees_record (table : FieldTable) :
    Read.Agrees size p (record schema policy nested table)
      (record schema policy' nested' table) := by
  apply tags.bind
  intro o
  cases o with
  | none => exact .refl _
  | some tag =>
    simp only
    split
    · refine Read.Agrees.bind (.refl _) fun _ => ?_
      split
      · exact (agrees_update tags h _ _).bind fun _ => .refl _
      · exact .refl _
    · exact .refl _

theorem forks_records (table : FieldTable) {w : Cursor} (short : w.remaining < size) :
    (records schema policy nested table w).Forks p (records schema policy' nested' table w) :=
  (agrees_record tags h table).untilEnd _ _ short

/-- Messages that nest such messages agree on windows that are longer by one. -/
theorem agrees_message_around (changes : access.Agrees schema p access') (type : Nat) :
    Read.Agrees (size + 1) p
      (Read.delimited fun w => ((schema.fresh type).replay schema access
        (records schema policy nested (schema.table type) w)).toLogged)
      (Read.delimited fun w => ((schema.fresh type).replay schema access'
        (records schema policy' nested' (schema.table type) w)).toLogged) :=
  .delimited fun _ short =>
    Decoded.toLogged_agrees (Message.replay_of_forks changes (forks_records tags h _ short) _)

end

/-- With full access messages are read the same, or one of them could not be changed. -/
theorem agrees_message_full (options : DecodeOptions) (access : Accessors)
    (size levels type : Nat) :
    Read.Agrees size Error.Refusal (message schema options access levels type)
      (message schema options .full levels type) := by
  induction levels generalizing size type with
  | zero => exact .refl _
  | succ levels ih =>
    have changes : access.Agrees schema Error.Refusal .full :=
      Accessors.agrees_full .unsupportedCardinality access
    exact (agrees_message_around (.refl _) (ih size) changes type).mono (Nat.le_succ size)

end Decoding

namespace Message

/-- Unless a change is refused, decoding goes as it does with full access. -/
theorem merge_agrees_full (schema : Schema) (options : DecodeOptions) (access : Accessors)
    (table : FieldTable) (m : Message) (bytes : Bytes) :
    (∃ e, (m.merge schema options access table bytes).result = .error e ∧ e.Refusal) ∨
      m.merge schema options .full table bytes = m.merge schema options access table bytes := by
  have changes : access.Agrees schema Error.Refusal .full :=
    Accessors.agrees_full .unsupportedCardinality access
  have nested := @Decoding.agrees_message_full schema options access (bytes.length + 1)
    options.recursionLimit.toNat
  have forks : (Decoding.transcript schema options access table bytes).Forks Error.Refusal
      (Decoding.transcript schema options .full table bytes) :=
    Decoding.forks_records (.refl _) nested table (Nat.lt_succ_self _)
  exact replay_of_forks changes forks m

theorem merge_full_of_ok {options : DecodeOptions} {access : Accessors} {table : FieldTable}
    {m : Message} {bytes : Bytes}
    (done : (m.merge schema options access table bytes).result = .ok ()) :
    m.merge schema options .full table bytes = m.merge schema options access table bytes := by
  rcases merge_agrees_full schema options access table m bytes with ⟨e, failed, -⟩ | same
  · cases done.symm.trans failed
  · exact same

end Message

end Protowire
