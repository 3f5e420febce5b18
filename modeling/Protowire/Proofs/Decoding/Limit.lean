import Protowire.Proofs.Decoding.Agreement
import Protowire.Proofs.Decoding.Failure
import Protowire.Proofs.Decoding.Passage

set_option autoImplicit false

/-!
# Raising the recursion limit

The limit shows in nothing but the error for messages that nest too deeply. Up to the record with
such a message, decoding is the same under every higher limit.
-/

namespace Protowire

def Error.IsRecursionLimit (e : Error) : Prop := ∃ limit, e = .recursionLimit limit

/-- An error that says a message nests too deeply says it of this limit. -/
def Error.Exceeds (limit : UInt32) (e : Error) : Prop :=
  ∀ limit', e = .recursionLimit limit' → limit' = limit

theorem Error.Refusal.exceeds {e : Error} (h : e.Refusal) (limit : UInt32) : e.Exceeds limit := by
  rintro limit' rfl
  cases h

theorem Error.OfPayload.exceeds {e : Error} (h : e.OfPayload) (limit : UInt32) :
    e.Exceeds limit := by
  rintro limit' rfl
  cases h

namespace Decoding

variable (schema : Schema) (policy : MalformedTagPolicy) (access : Accessors)

theorem failsWith_next_exceeds (limit : UInt32) :
    (Tag.next policy).FailsWith (Error.Exceeds limit) := by
  apply Tag.failsWith_next fun _ h => h.exceeds limit
  intro _ offset raw limit' same
  cases same

/-- With more levels to nest in, a message is read the same or was nested too deeply. -/
theorem agrees_message_limit (limit limit' : UInt32) (size : Nat) {levels levels' : Nat}
    (more : levels ≤ levels') (type : Nat) :
    Read.Agrees size Error.IsRecursionLimit (message schema ⟨policy, limit⟩ access levels type)
      (message schema ⟨policy, limit'⟩ access levels' type) := by
  induction levels generalizing levels' size type with
  | zero => exact .fail ⟨limit, rfl⟩ _
  | succ levels ih =>
    obtain ⟨further, rfl⟩ : ∃ further, levels' = further + 1 := ⟨levels' - 1, by omega⟩
    have nested := fun type => ih size (Nat.le_of_succ_le_succ more) type
    exact (agrees_message_around (.refl _) nested access.agrees_refl type).mono (Nat.le_succ size)

end Decoding

namespace Message

/-- A higher limit gives the same result, the same message and the same log, unless a message nests
deeper than the lower limit lets it. Then the lower limit is what the error names, and decoding
leaves the message that it has under the higher limit, too, where it comes to the record that the
message is in. -/
theorem merge_raised_limit (schema : Schema) (policy : MalformedTagPolicy) {limit limit' : UInt32}
    (raised : limit ≤ limit') (access : Accessors) (table : FieldTable) (m : Message)
    (bytes : Bytes) :
    let record (limit : UInt32) :=
      Decoding.record schema policy (Decoding.message schema ⟨policy, limit⟩ access limit.toNat)
        table
    let low := m.merge schema ⟨policy, limit⟩ access table bytes
    let high := m.merge schema ⟨policy, limit'⟩ access table bytes
    ((∀ l, low.result ≠ .error (.recursionLimit l)) → high = low) ∧
    ∀ l, low.result = .error (.recursionLimit l) → l = limit ∧
      ∃ c, Passes schema access (record limit') m (.ofBytes bytes) low.message c ∧
        ((record limit).run c).result = .error (.recursionLimit limit) ∧
        ∃ log, high = (low.message.replay schema access (Decoding.records schema policy
          (Decoding.message schema ⟨policy, limit'⟩ access limit'.toNat) table c)).after log := by
  intro record low high
  have tags : Read.Agrees (bytes.length + 1) Error.IsRecursionLimit (Tag.next policy)
      (Tag.next policy) := .refl _
  have nested := Decoding.agrees_message_limit schema policy access limit limit' (bytes.length + 1)
    (UInt32.le_iff_toNat_le.1 raised)
  have inside : (Cursor.ofBytes bytes).remaining < bytes.length + 1 := Nat.lt_succ_self _
  refine ⟨fun notTooDeep => ?_, fun l tooDeep => ?_⟩
  · have either : (∃ e, low.result = .error e ∧ e.IsRecursionLimit) ∨ high = low :=
      replay_of_forks access.agrees_refl (Decoding.forks_records tags nested table inside) m
    rcases either with ⟨e, failed, l, rfl⟩ | same
    · exact absurd failed (notTooDeep l)
    · exact same
  · have reads : (record limit).FailsWith (Error.Exceeds limit) := by
      apply Decoding.failsWith_record fun _ h => h.exceeds limit
      · exact Decoding.failsWith_next_exceeds policy limit
      · intro type
        apply Decoding.failsWith_message fun _ h => h.exceeds limit
        · exact Decoding.failsWith_next_exceeds policy limit
        · exact fun _ _ _ _ failed => (refusal_of_update failed).exceeds limit
        · rintro limit' ⟨⟩
          rfl
    have read : ¬ (Error.recursionLimit l).Refusal := by
      intro refusal
      cases refusal
    obtain ⟨c, passes, fails⟩ := exists_passes_of_error read tooDeep
    obtain rfl : l = limit := reads c _ fails l rfl
    have passes' : Passes schema access (record limit') m (.ofBytes bytes) low.message c :=
      passes.of_agrees (Decoding.agrees_record tags nested table) inside
    exact ⟨rfl, c, passes', fails, passes'.replay (Decoding.consumes_record _ _ _ _)⟩

/-- A name and a child: too deep under the limit 0, which leaves the name, and read under both
higher limits. -/
theorem merge_raised_limit_child :
    let bytes : Bytes := [0x0A, 0x01, 0x6E, 0x1A, 0x02, 0x0A, 0x00]
    let run (limit : UInt32) :=
      Sample.leaf.merge Sample.schema ⟨.resync, limit⟩ .full Sample.table bytes
    let record (limit : UInt32) := Decoding.record Sample.schema .resync
      (Decoding.message Sample.schema ⟨.resync, limit⟩ .full limit.toNat) Sample.table
    (run 0).result = .error (.recursionLimit 0) ∧ (run 1).result = .ok () ∧
      (∃ c, Passes Sample.schema .full (record 1) Sample.leaf (.ofBytes bytes) (run 0).message c ∧
        ((record 0).run c).result = .error (.recursionLimit 0)) ∧
      run 2 = run 1 := by
  intro bytes run record
  have tooDeep : (run 0).result = .error (.recursionLimit 0) := by decide +kernel
  have read : (run 1).result = .ok () := by decide +kernel
  have notTooDeep : ∀ l, (run 1).result ≠ .error (.recursionLimit l) := by
    intro l failed
    rw [read] at failed
    cases failed
  have oneMore : (0 : UInt32) ≤ 1 := by decide
  have twoMore : (1 : UInt32) ≤ 2 := by decide
  have fromNone := merge_raised_limit Sample.schema .resync oneMore .full Sample.table Sample.leaf
    bytes
  have fromOne := merge_raised_limit Sample.schema .resync twoMore .full Sample.table Sample.leaf
    bytes
  obtain ⟨-, c, passes, fails, -⟩ := fromNone.2 0 tooDeep
  exact ⟨tooDeep, read, ⟨c, passes, fails⟩, fromOne.1 notTooDeep⟩

end Message

end Protowire
