import Protowire.Proofs.Decoding.Concatenation
import Protowire.Proofs.Decoding.Policy
import Protowire.Proofs.Decoding.Record

set_option autoImplicit false

/-!
# Records of the grammar are taken

Nothing in a record of the grammar is a malformed tag, so it is taken under either policy. Wherever
it stands it makes its update, and goes on to what comes behind it.
-/

namespace Protowire

/-- What is taken without an error is taken by every read that differs in errors only. -/
theorem Read.Agrees.takes {α : Type} {p : Error → Prop} {x y : Read α} {bytes : Bytes} {a : α}
    (h : ∀ size, Agrees size p x y) (taken : x.Takes bytes a) : y.Takes bytes a := by
  intro offset after
  have answer := taken offset after
  rcases h _ ⟨offset, bytes ++ after⟩ (Nat.lt_succ_self _) with ⟨e, failed, -⟩ | same
  · rw [answer.1] at failed
    cases failed
  · rwa [same]

namespace Decoding

open Grammar

theorem takes_record (schema : Schema) (options : DecodeOptions) {table : FieldTable}
    (built : table.Built) {bytes : Bytes} {o : Option Update}
    (h : Record schema (Nested schema options.recursionLimit.toNat) table bytes o) :
    (record schema options.malformedTags (message schema options .full options.recursionLimit.toNat)
      table).Takes bytes o := by
  obtain ⟨policy, limit⟩ := options
  have strict := (recognizes_record (recognizes_message schema limit _) built).takes h
  cases policy with
  | reject => exact strict
  | resync =>
    have agrees (size : Nat) : Read.Agrees size Error.IsMalformedTag
        (record schema .reject (message schema ⟨.reject, limit⟩ .full limit.toNat) table)
        (record schema .resync (message schema ⟨.resync, limit⟩ .full limit.toNat) table) :=
      agrees_record (Tag.agrees_next size)
        (fun type => agrees_message_resync schema limit .full size limit.toNat type) table
    exact Read.Agrees.takes agrees strict

theorem suits_of_record {schema : Schema} {options : DecodeOptions} {type : Nat} {bytes : Bytes}
    {u : Update}
    (h : Record schema (Nested schema options.recursionLimit.toNat) (schema.table type)
      bytes (some u)) : u.Suits schema type := by
  have taken := takes_record schema options (schema.built_table type) h
  have suiting := @yields_suiting schema options.malformedTags _
    (sound_message schema options .full options.recursionLimit.toNat) type
  exact Read.AnswersAt.yields (taken 0) suiting u rfl

end Decoding

namespace Message

open Grammar

variable {schema : Schema} {options : DecodeOptions} {m : Message} {bytes : Bytes}

theorem merge_nil (access : Accessors) (table : FieldTable) :
    m.merge schema options access table [] = ⟨⟨m, .ok ()⟩, []⟩ := by
  have nothing : Decoding.transcript schema options access table [] = .finished :=
    Read.untilEnd_of_nil rfl
  rw [merge, nothing]
  rfl

theorem merge_record {type : Nat} (same : m.type = type) {o : Option Update}
    (h : Record schema (Nested schema options.recursionLimit.toNat) (schema.table type) bytes o) :
    ∃ log, m.merge schema options .full (schema.table type) bytes =
      ⟨⟨m.apply o, .ok ()⟩, log⟩ := by
  subst same
  have taken := Decoding.takes_record schema options (schema.built_table m.type) h
  obtain ⟨log, turn⟩ := Decoding.transcript_record (taken 0)
  rw [merge, turn]
  cases o with
  | none => exact ⟨_, rfl⟩
  | some u =>
    have made := update_of_suits (Decoding.suits_of_record h)
    rw [replay_turn_of_ok (by rw [made]), made]
    exact ⟨_, rfl⟩

/-- Records one behind the other are all made. -/
theorem merge_records {type : Nat} (same : m.type = type) {os : List (Option Update)}
    (h : Sequence (Record schema (Nested schema options.recursionLimit.toNat)
      (schema.table type)) bytes os) :
    ∃ log, m.merge schema options .full (schema.table type) bytes =
      ⟨⟨os.foldl apply m, .ok ()⟩, log⟩ := by
  induction h generalizing m with
  | nil => exact ⟨_, merge_nil _ _⟩
  | @cons first rest o os record others ih =>
    obtain ⟨log, made⟩ := merge_record same record
    obtain ⟨log', left⟩ := ih ((type_apply m o).trans same)
    rw [merge_behind made, left]
    exact ⟨_, rfl⟩

end Message

end Protowire
