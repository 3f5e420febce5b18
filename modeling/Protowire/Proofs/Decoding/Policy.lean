import Protowire.Proofs.Decoding.Agreement
import Protowire.Proofs.Decoding.Failure
import Protowire.Proofs.Decoding.Passage
import Protowire.Proofs.Read.Tag

set_option autoImplicit false

/-!
# Stepping over malformed tags

Rejecting malformed tags and stepping over them are the same until one is met. Where they are
stepped over, none of them ever ends anything.
-/

namespace Protowire

def Error.IsMalformedTag (e : Error) : Prop := ∃ offset raw, e = .malformedTag offset raw

theorem Error.OfPayload.not_isMalformedTag {e : Error} (h : e.OfPayload) :
    ¬ e.IsMalformedTag := by
  rintro ⟨offset, raw, rfl⟩
  cases h

theorem Error.Refusal.not_isMalformedTag {e : Error} (h : e.Refusal) : ¬ e.IsMalformedTag := by
  rintro ⟨offset, raw, rfl⟩
  cases h

theorem Tag.agrees_next (size : Nat) :
    Read.Agrees size Error.IsMalformedTag (next .reject) (next .resync) := by
  intro c _
  rw [next_reject]
  change _ ∨ (Read.recover _ _).run c = _
  unfold Read.recover
  cases hr : ((some <$> read).run c).result with
  | ok t =>
    right
    simp only [hr]
  | error e =>
    cases e with
    | malformedTag offset raw => exact .inl ⟨_, rfl, offset, raw, rfl⟩
    | _ =>
      right
      simp only [hr]

theorem Tag.failsWith_next_resync : (next .resync).FailsWith fun e => ¬ e.IsMalformedTag :=
  failsWith_next (fun _ h => h.not_isMalformedTag) fun reject => by cases reject

namespace Decoding

theorem agrees_message_resync (schema : Schema) (limit : UInt32) (access : Accessors)
    (size levels type : Nat) :
    Read.Agrees size Error.IsMalformedTag (message schema ⟨.reject, limit⟩ access levels type)
      (message schema ⟨.resync, limit⟩ access levels type) := by
  induction levels generalizing size type with
  | zero => exact .refl _
  | succ levels ih =>
    refine Read.Agrees.mono ?_ (Nat.le_succ size)
    exact agrees_message_around (Tag.agrees_next size) (ih size) access.agrees_refl type

theorem failsWith_message_resync (schema : Schema) (limit : UInt32) (access : Accessors)
    (levels type : Nat) :
    (message schema ⟨.resync, limit⟩ access levels type).FailsWith fun e =>
      ¬ e.IsMalformedTag := by
  apply failsWith_message fun _ h => h.not_isMalformedTag
  · exact Tag.failsWith_next_resync
  · exact fun _ _ _ _ failed => (Message.refusal_of_update failed).not_isMalformedTag
  · rintro ⟨offset, raw, same⟩
    cases same

end Decoding

namespace Message

theorem merge_agrees_resync (schema : Schema) (limit : UInt32) (access : Accessors)
    (table : FieldTable) (m : Message) (bytes : Bytes) :
    (∃ e, (m.merge schema ⟨.reject, limit⟩ access table bytes).result = .error e ∧
      e.IsMalformedTag) ∨
      m.merge schema ⟨.resync, limit⟩ access table bytes =
        m.merge schema ⟨.reject, limit⟩ access table bytes := by
  have nested := Decoding.agrees_message_resync schema limit access (bytes.length + 1) limit.toNat
  have tags := Tag.agrees_next (bytes.length + 1)
  exact replay_of_forks access.agrees_refl
    (Decoding.forks_records tags nested table (Nat.lt_succ_self _)) m

/-- Unless strict decoding ends at a malformed tag, stepping over malformed tags makes no
difference: the same result, the same message and the same log. And where they are stepped over, no
input ends in one, no nested message does, and no map entry. -/
theorem merge_resync (schema : Schema) (limit : UInt32) (access : Accessors) (table : FieldTable)
    (m : Message) (bytes : Bytes) :
    let strict := m.merge schema ⟨.reject, limit⟩ access table bytes
    let lenient := m.merge schema ⟨.resync, limit⟩ access table bytes
    ((∀ offset raw, strict.result ≠ .error (.malformedTag offset raw)) → lenient = strict) ∧
    (∀ offset raw, lenient.result ≠ .error (.malformedTag offset raw)) ∧
    ∀ levels,
      let nested := Decoding.message schema ⟨.resync, limit⟩ access levels
      (∀ type, (nested type).FailsWith fun e => ¬ e.IsMalformedTag) ∧
      ∀ keyKind kind, (Decoding.entry schema .resync nested keyKind kind).FailsWith fun e =>
        ¬ e.IsMalformedTag := by
  intro strict lenient
  have payload : ∀ e : Error, e.OfPayload → ¬ e.IsMalformedTag := fun _ h => h.not_isMalformedTag
  have nestedFail := Decoding.failsWith_message_resync schema limit access
  refine ⟨fun unrejected => ?_, fun offset raw failed => ?_, fun levels => ⟨nestedFail levels, ?_⟩⟩
  · rcases merge_agrees_resync schema limit access table m bytes with
      ⟨e, failed, offset, raw, rfl⟩ | same
    · exact absurd failed (unrejected offset raw)
    · exact same
  · have records : (Decoding.record schema .resync
        (Decoding.message schema ⟨.resync, limit⟩ access limit.toNat) table).FailsWith fun e =>
          ¬ e.IsMalformedTag :=
      Decoding.failsWith_record payload Tag.failsWith_next_resync (nestedFail limit.toNat) table
    exact failsWith_replay records (fun _ h => h.not_isMalformedTag) failed ⟨offset, raw, rfl⟩
  · exact Decoding.failsWith_entry payload Tag.failsWith_next_resync (nestedFail levels)

/-- A name, a child, a map entry without its halves, and weights that are cut off. -/
theorem merge_resync_cut_off :
    let bytes : Bytes :=
      [0x0A, 0x01, 0x6E, 0x1A, 0x02, 0x0A, 0x00, 0x22, 0x00, 0x12, 0x02, 0x02, 0x80]
    let strict := Sample.leaf.merge Sample.schema ⟨.reject, 1⟩ .full Sample.table bytes
    let lenient := Sample.leaf.merge Sample.schema ⟨.resync, 1⟩ .full Sample.table bytes
    (∀ offset raw, strict.result ≠ .error (.malformedTag offset raw)) ∧
      strict.result = .error (.underrun 1 0) ∧ lenient = strict := by
  intro bytes strict lenient
  have short : strict.result = .error (.underrun 1 0) := by decide +kernel
  have unrejected : ∀ offset raw, strict.result ≠ .error (.malformedTag offset raw) := by
    intro offset raw failed
    rw [short] at failed
    cases failed
  exact ⟨unrejected, short,
    (merge_resync Sample.schema 1 .full Sample.table Sample.leaf bytes).1 unrejected⟩

end Message

end Protowire
