import Protowire.Proofs.Decoding.Commutation
import Protowire.Proofs.Decoding.Fits
import Protowire.Proofs.Message.Overwriting

set_option autoImplicit false

/-!
# Decoding the same input again

Where no field is a list, every record replaces what its field or its key had. An embedded message
counts as one value: it is read into a fresh message, so even lists inside it are replaced. What an
input has left it leaves again.
-/

namespace Protowire

namespace Update

variable {schema : Schema} {type : Nat} {u : Update}

theorem overwrites_of_suits
    (singular : ∀ field ∈ (schema.table type).slots, field.cardinality ≠ .repeated)
    (suits : u.Suits schema type) : u.Overwrites := by
  cases u with
  | set i v => trivial
  | append i vs =>
    obtain ⟨field, declared, cardinality, -⟩ := suits
    exact (singular field (List.mem_of_getElem? declared) cardinality).elim
  | insert i key value => trivial

end Update

namespace Decoding

/-- All turns of an input suit the type whose table it is read by. -/
theorem suits_of_mem_turns (schema : Schema) (options : DecodeOptions) (access : Accessors)
    (type : Nat) (bytes : Bytes) :
    ∀ o ∈ (transcript schema options access (schema.table type) bytes).turns, ∀ u, o = some u →
      u.Suits schema type :=
  (all_records (sound_message schema options access _) type (.ofBytes bytes)).of_mem_turns

theorem overwriting_of_mem_turns {schema : Schema} {options : DecodeOptions} {access : Accessors}
    {type : Nat}
    (singular : ∀ field ∈ (schema.table type).slots, field.cardinality ≠ .repeated)
    (bytes : Bytes) :
    ∀ o ∈ (transcript schema options access (schema.table type) bytes).turns,
      Update.Overwriting schema type o := by
  intro o turn u same
  have suits := suits_of_mem_turns schema options access type bytes o turn u same
  exact ⟨suits, Update.overwrites_of_suits singular suits⟩

end Decoding

namespace Message

/-- An input that is decoded without an error, by a table that has no list, can be decoded again
into the message that it has left and leaves it as it is. -/
theorem merge_again (schema : Schema) (options : DecodeOptions) (access : Accessors) (m : Message)
    (fits : m.Fits schema (schema.table m.type))
    (singular : ∀ field ∈ (schema.table m.type).slots, field.cardinality ≠ .repeated)
    (bytes : Bytes)
    (done : (m.merge schema options access (schema.table m.type) bytes).result = .ok ()) :
    let first := m.merge schema options access (schema.table m.type) bytes
    let second := first.message.merge schema options access (schema.table first.message.type) bytes
    second.result = .ok () ∧ second.message = first.message := by
  intro first second
  let turns := (Decoding.transcript schema options access (schema.table m.type) bytes).turns
  have left : first.message = turns.foldl apply m := (replay_of_done rfl done).2
  have type : first.message.type = m.type := by
    rw [left]
    exact type_foldl_apply m turns
  have again : second = first.message.merge schema options access (schema.table m.type) bytes := by
    simp only [second, type]
  obtain ⟨result, message⟩ := replay_of_done type done
  refine ⟨?_, ?_⟩
  · rw [again]
    exact result
  · calc second.message
      _ = turns.foldl apply first.message := by rw [again]; exact message
      _ = turns.foldl apply (turns.foldl apply m) := by rw [left]
      _ = turns.foldl apply m :=
        foldl_apply_foldl_apply fits (Decoding.overwriting_of_mem_turns singular bytes)
      _ = first.message := left.symm

end Message

namespace Sample

/-- Nodes have a list of weights, a roster of them has no list. -/
def rosterFields : List FieldSpec :=
  [⟨1, "first", .single, .message 0⟩, ⟨2, "nodes", .map (.scalar .uint32), .message 0⟩]

def rosterTable : FieldTable :=
  (FieldTable.build "roster" rosterFields).toOption.getD (.empty "roster")

def roster : Schema := ⟨[table, rosterTable], by
  intro t ht
  rcases List.mem_pair.1 ht with rfl | rfl
  · exact ⟨"node", fields, rfl⟩
  · exact ⟨"roster", rosterFields, rfl⟩⟩

end Sample

namespace Message

/-- A first node given twice, two entries with one key that is spelled differently, and between
them a byte that begins no tag. -/
theorem merge_again_roster :
    let m := Sample.roster.fresh 1
    let bytes : Bytes := [0x0A, 0x04, 0x12, 0x02, 0x02, 0x04, 0x07, 0x12, 0x06, 0x08, 0x05, 0x12,
      0x02, 0x12, 0x00, 0x12, 0x05, 0x08, 0x85, 0x00, 0x12, 0x00, 0x0A, 0x02, 0x12, 0x00]
    (m.merge Sample.roster {} .full (Sample.roster.table m.type) bytes).result = .ok () ∧
      let first := m.merge Sample.roster {} .full (Sample.roster.table m.type) bytes
      let second := first.message.merge Sample.roster {} .full
        (Sample.roster.table first.message.type) bytes
      second.result = .ok () ∧ second.message = first.message := by
  intro m bytes
  have fits : m.Fits Sample.roster (Sample.roster.table m.type) := fits_fresh Sample.roster 1
  have singular : ∀ field ∈ (Sample.roster.table m.type).slots,
      field.cardinality ≠ .repeated := by decide
  have done : (m.merge Sample.roster {} .full (Sample.roster.table m.type) bytes).result =
      .ok () := by decide +kernel
  exact ⟨done, merge_again Sample.roster {} .full m fits singular bytes done⟩

end Message

end Protowire
