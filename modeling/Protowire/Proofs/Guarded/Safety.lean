import Protowire.Proofs.Guarded.Refinement
import Protowire.Proofs.Guarded.Writing
import Protowire.Proofs.Message

set_option autoImplicit false

/-!
# No fault is ever met

Whatever the types, the options, the bytes and the message, no guarded step is reached that has no
result. That takes buffers and sizes that words can count.
-/

namespace Protowire.Guarded

/-- With every step guarded, decoding, sizing and encoding have the results they have otherwise. The
bulk of a message is its size, if it can be sized. If not, sizing may come to a large sum before it
finds that out, and the bulk is what it comes to at most. -/
theorem never_faults (schema : Schema) (table : FieldTable) (m : Message) :
    (∀ (options : DecodeOptions) (access : Accessors) (bytes : Bytes), bytes.length < 2 ^ 64 →
      ∃ work, merge schema options access table m bytes =
        .ok (m.merge schema options access table bytes, work)) ∧
    (m.bulk schema table < 2 ^ 64 →
      messageSize schema table m = .ok (.ofExcept (m.encodedSize schema table)) ∧
      encode schema table m = .ok (m.encode schema table)) ∧
    ∀ size, m.encodedSize schema table = .ok size → m.bulk schema table = size := by
  refine ⟨?merging, ?encoding, (sizes_message schema table m).exact⟩
  case merging =>
    intro options access bytes small
    obtain ⟨work, -, run⟩ := merge_eq schema options access table m small
    exact ⟨work, run⟩
  case encoding => exact fun small => ⟨messageSize_eq small, encode_eq small⟩

/-- A malformed tag that is stepped over, a message in a message that ends too early, and a limit
that is not reached. -/
theorem never_faults_node :
    let options : DecodeOptions := ⟨.resync, 0xFFFFFFFF⟩
    let bytes : Bytes := [0x07, 0x1A, 0x02, 0x1A, 0x05]
    bytes.length < 2 ^ 64 ∧ Sample.node.bulk Sample.schema Sample.table < 2 ^ 64 ∧
      (∃ work, merge Sample.schema options .full Sample.table Sample.node bytes =
        .ok (Sample.node.merge Sample.schema options .full Sample.table bytes, work)) ∧
      messageSize Sample.schema Sample.table Sample.node =
        .ok (.ofExcept (Sample.node.encodedSize Sample.schema Sample.table)) ∧
      encode Sample.schema Sample.table Sample.node =
        .ok (Sample.node.encode Sample.schema Sample.table) := by
  obtain ⟨merging, encoding, size⟩ := never_faults Sample.schema Sample.table Sample.node
  have sized : Sample.node.encodedSize Sample.schema Sample.table = .ok 50 := by
    decide +kernel
  have small : Sample.node.bulk Sample.schema Sample.table < 2 ^ 64 := by
    rw [size _ sized]
    decide
  exact ⟨by decide, small, merging _ _ _ (by decide), encoding small⟩

end Protowire.Guarded
