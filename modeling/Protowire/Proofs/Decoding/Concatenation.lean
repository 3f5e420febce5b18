import Protowire.Proofs.Decoding.Relocation

set_option autoImplicit false

/-!
# Decoding one input behind another

Inputs put together are decoded one after the other: nothing that is read in the first one looks at
what comes behind it, unless it fails for want of bytes.
-/

namespace Protowire

namespace Decoding

variable {schema : Schema} {options : DecodeOptions} {access : Accessors} {table : FieldTable}

theorem follows_whole (schema : Schema) (options : DecodeOptions) (access : Accessors)
    (table : FieldTable) (distance : Nat) :
    let nested := message schema options access options.recursionLimit.toNat
    Read.Follows (.shift distance) (record schema options.malformedTags nested table)
      (record schema options.malformedTags nested table) :=
  follows_record (follows_message schema options.malformedTags access rfl _) table

theorem transcript_append {a : Bytes}
    (finishes : (transcript schema options access table a).Finishes) (b : Bytes) :
    transcript schema options access table (a ++ b) =
      (transcript schema options access table a).append
        ((transcript schema options access table b).relocate (.shift a.length)) := by
  have consumes := consumes_record schema options.malformedTags
    (message schema options access options.recursionLimit.toNat) table
  have whole := Read.untilEnd_relocate_append consumes consumes
    (follows_whole schema options access table 0) (.ofBytes a) b (.inr finishes)
  have behind := Read.untilEnd_relocate consumes consumes
    (follows_whole schema options access table a.length) (.ofBytes b)
  have place : (Cursor.ofBytes b).relocate (.shift a.length) [] =
      ⟨(Cursor.ofBytes a).stop + 0, b⟩ := by
    simp [Cursor.relocate, Cursor.ofBytes, Cursor.stop, Cursor.remaining, Relocation.shift]
  rw [place] at behind
  rw [Transcript.relocate_shift_zero] at whole
  exact whole.trans (congrArg _ behind)

end Decoding

namespace Message

variable {schema : Schema} {options : DecodeOptions} {access : Accessors} {table : FieldTable}
  {m : Message} {a : Bytes}

/-- What comes behind an input that is decoded without an error is decoded into the message that
this has left. -/
theorem merge_behind {m' : Message} {log : List Event}
    (first : m.merge schema options access table a = ⟨⟨m', .ok ()⟩, log⟩) (b : Bytes) :
    m.merge schema options access table (a ++ b) =
      ((m'.merge schema options access table b).relocate (.shift a.length)).after log := by
  rw [merge] at first
  have done : (m.replay schema access (Decoding.transcript schema options access table a)).result =
      .ok () := by
    rw [first]
  have finishes := finishes_of_replay done
  rw [merge, Decoding.transcript_append finishes, replay_append done, first, replay_relocate]
  rfl

/-- If one input is decoded without an error, decoding another one behind it is decoding both in
turn, whatever comes of the second. Only the offsets in errors and events count from the start of
the first. -/
theorem merge_append (schema : Schema) (options : DecodeOptions) (access : Accessors)
    (table : FieldTable) (m : Message) (a b : Bytes)
    (done : (m.merge schema options access table a).result = .ok ()) :
    let first := m.merge schema options access table a
    let second := first.message.merge schema options access table b
    let whole := m.merge schema options access table (a ++ b)
    whole.message = second.message ∧
      whole.result = second.result.mapError (Error.relocate (.shift a.length)) ∧
      whole.log = first.log ++ second.log.map (Event.relocate (.shift a.length)) := by
  intro first second whole
  have front : first = ⟨⟨first.message, .ok ()⟩, first.log⟩ := by rw [← done]
  have sequel : whole = (second.relocate (.shift a.length)).after first.log :=
    merge_behind front b
  rw [sequel]
  exact ⟨rfl, rfl, rfl⟩

/-- A name and an empty child, and behind them weights that end in a malformed tag. -/
theorem merge_append_malformed :
    let a : Bytes := [0x0A, 0x01, 0x6E, 0x1A, 0x00]
    let b : Bytes := [0x12, 0x02, 0x01, 0x02, 0x07]
    let first := Sample.leaf.merge Sample.schema .strict .full Sample.table a
    first.result = .ok () ∧
      let second := first.message.merge Sample.schema .strict .full Sample.table b
      let whole := Sample.leaf.merge Sample.schema .strict .full Sample.table (a ++ b)
      whole.message = second.message ∧
        whole.result = second.result.mapError (Error.relocate (.shift a.length)) ∧
        whole.log = first.log ++ second.log.map (Event.relocate (.shift a.length)) := by
  intro a b first
  have done : first.result = .ok () := by decide +kernel
  exact ⟨done, merge_append Sample.schema .strict .full Sample.table Sample.leaf a b done⟩

end Message

end Protowire
