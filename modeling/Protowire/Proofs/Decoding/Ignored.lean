import Protowire.Proofs.Decoding.Concatenation
import Protowire.Proofs.Decoding.Record

set_option autoImplicit false

/-!
# Ignored records

A record that no slot takes can be put between any two others. Decoding steps over it, and all that
shows of it are the offsets behind it.
-/

namespace Protowire

/-- What stands behind `distance` bytes has an offset that says so. -/
theorem Error.distance_le_of_relocate {distance offset : Nat} {raw : UInt64} {e : Error}
    (h : e.relocate (.shift distance) = malformedTag offset raw) : distance ≤ offset := by
  cases e with
  | malformedTag start code =>
    cases h
    exact Nat.le_add_left distance start
  | _ => cases h

namespace Message

variable {head payload : Bytes} {tag : Tag}

/-- Behind the record the message is as it was in front of it. -/
theorem merge_behind_ignored (schema : Schema) (options : DecodeOptions) (access : Accessors)
    {table : FieldTable} (built : table.Built) (m : Message) (spelled : Tag.Spells head tag)
    (skipped : Grammar.Skipped tag.wireType payload) (ignored : table.Ignores tag) (b : Bytes) :
    ∃ log, m.merge schema options access table (head ++ payload ++ b) =
      ((m.merge schema options access table b).relocate
        (.shift (head ++ payload).length)).after log := by
  let nested := Decoding.message schema options access options.recursionLimit.toNat
  have taken : (Decoding.record schema options.malformedTags nested table).Takes
      (head ++ payload) none :=
    Decoding.takes_record_ignored built spelled skipped ignored
  obtain ⟨log, turn⟩ := Decoding.transcript_record (taken 0)
  have alone : m.merge schema options access table (head ++ payload) = ⟨⟨m, .ok ()⟩, log⟩ := by
    rw [merge, turn, replay_turn_none]
    exact congrArg _ (List.append_nil log)
  exact ⟨log, merge_behind alone b⟩

/-- Decoding two inputs with the record between them is decoding them without it. Only an error in
the second one mentions an offset that the record has moved. -/
theorem merge_ignored (schema : Schema) (options : DecodeOptions) (access : Accessors)
    {table : FieldTable} (built : table.Built) (m : Message) {a : Bytes}
    (done : (m.merge schema options access table a).result = .ok ())
    (spelled : Tag.Spells head tag) (skipped : Grammar.Skipped tag.wireType payload)
    (ignored : table.Ignores tag) (b : Bytes) :
    let within := m.merge schema options access table (a ++ (head ++ payload) ++ b)
    let without := m.merge schema options access table (a ++ b)
    within.message = without.message ∧
      within.result =
        without.result.mapError (Error.relocate (.shift (head ++ payload).length)) ∧
      ∀ offset raw, without.result = .error (.malformedTag offset raw) → a.length ≤ offset := by
  intro within without
  let first := m.merge schema options access table a
  let second := first.message.merge schema options access table b
  obtain ⟨log, stepped⟩ :=
    merge_behind_ignored schema options access built first.message spelled skipped ignored b
  have front : first = ⟨⟨first.message, .ok ()⟩, first.log⟩ := by rw [← done]
  have outer : without = (second.relocate (.shift a.length)).after first.log :=
    merge_behind front b
  have inner : within = (((second.relocate (.shift (head ++ payload).length)).after log).relocate
      (.shift a.length)).after first.log := by
    rw [← stepped, ← merge_behind front, ← List.append_assoc]
  rw [outer, inner]
  refine ⟨rfl, ?_, ?_⟩
  · simp only [Decoded.result_after, Decoded.result_relocate]
    cases second.result with
    | ok _ => rfl
    | error e => exact congrArg _ (Error.relocate_shift_comm _ _ e)
  · intro offset raw failed
    obtain ⟨e, -, moved⟩ := Result.mapError_eq_error_iff.1 failed
    exact Error.distance_le_of_relocate moved

/-- A weight where weights are not of that width, its tag spelled with a byte too many, and behind
it a malformed tag. -/
theorem merge_ignored_weight :
    let a : Bytes := [0x0A, 0x01, 0x6E]
    let head : Bytes := [0x95, 0x00]
    let payload : Bytes := [0x01, 0x02, 0x03, 0x04]
    let tag : Tag := ⟨.value, .fixed32⟩
    Sample.table.Built ∧
      (Sample.leaf.merge Sample.schema .strict .full Sample.table a).result = .ok () ∧
      Tag.Spells head tag ∧ Grammar.Skipped tag.wireType payload ∧ Sample.table.Ignores tag ∧
      let within := Sample.leaf.merge Sample.schema .strict .full Sample.table
        (a ++ (head ++ payload) ++ [0x07])
      let without := Sample.leaf.merge Sample.schema .strict .full Sample.table (a ++ [0x07])
      within.message = without.message ∧
        within.result =
          without.result.mapError (Error.relocate (.shift (head ++ payload).length)) ∧
        ∀ offset raw, without.result = .error (.malformedTag offset raw) →
          a.length ≤ offset := by
  intro a head payload tag
  have built : Sample.table.Built := ⟨"node", Sample.fields, rfl⟩
  have done : (Sample.leaf.merge Sample.schema .strict .full Sample.table a).result = .ok () := by
    decide +kernel
  have spelled : Tag.Spells head tag :=
    ⟨0x15, ⟨⟨[0x95], 0x00, rfl, by decide, by simp, by decide⟩, rfl⟩, rfl⟩
  have skipped : Grammar.Skipped tag.wireType payload := ⟨.fixed32 0x04030201, rfl, rfl⟩
  have ignored : Sample.table.Ignores tag := by decide
  exact ⟨built, done, spelled, skipped, ignored,
    merge_ignored Sample.schema .strict .full built Sample.leaf done spelled skipped ignored [0x07]⟩

end Message

end Protowire
