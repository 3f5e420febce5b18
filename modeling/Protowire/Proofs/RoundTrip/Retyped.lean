import Mathlib.Algebra.Group.Int.Defs
import Protowire.Proofs.Decoding.Nested
import Protowire.Proofs.Decoding.Taken
import Protowire.Proofs.Encoding.Parts
import Protowire.Proofs.Writer

set_option autoImplicit false

/-!
# Values read back as another type

Types that share a wire type take each other's payloads. An integer keeps its two's complement in
the width of the reading type, the zigzag types keep what they can hold, and bytes take text and
messages as they were written.
-/

namespace Protowire

/-- The word holds the number in two's complement. -/
def Represents (raw : UInt64) (x : Int) : Prop := (raw.toNat : Int) = x % 2 ^ 64

namespace Represents

variable {raw : UInt64} {x : Int}

theorem unsigned (v : UInt64) : Represents v v.toNat :=
  (Int.emod_eq_of_lt (Int.natCast_nonneg _) (by exact_mod_cast v.toNat_lt)).symm

theorem signed (v : Int64) : Represents v.toUInt64 v.toInt := by
  have value : v.toInt = (v.toUInt64.toNat : Int).bmod (2 ^ 64) :=
    BitVec.toInt_eq_toNat_bmod v.toBitVec
  rw [Represents, value]
  exact (unsigned v.toUInt64).trans Int.bmod_emod.symm

theorem toNat_toUInt32 (h : Represents raw x) : (raw.toUInt32.toNat : Int) = x % 2 ^ 32 := by
  rw [UInt64.toNat_toUInt32, Int.natCast_emod, h]
  exact Int.emod_emod_of_dvd x (by decide)

theorem toInt_toInt32 (h : Represents raw x) :
    raw.toUInt32.toInt32.toInt = x.bmod (2 ^ 32) := by
  have value : raw.toUInt32.toInt32.toInt = (raw.toUInt32.toNat : Int).bmod (2 ^ 32) :=
    BitVec.toInt_eq_toNat_bmod raw.toUInt32.toBitVec
  rw [value, h.toNat_toUInt32]
  exact Int.emod_bmod x (2 ^ 32)

end Represents

namespace ScalarType

/-- What any writer appends for the value of the one type is, wherever it stands and whatever is
behind it, taken by the read of the other type, which gives `s'` for it. -/
def Rereads (t u : ScalarType) (s s' : Scalar) : Prop :=
  ∃ x bytes, Write.scalar? t s = some x ∧
    (∀ w : Writer, w.write x = (.ok bytes, ⟨w.written ++ bytes⟩)) ∧
    ∀ (r : Reader) (rest : Bytes), r.cursor.unread = bytes ++ rest →
      r.run u.read = (.ok s', { r with position := r.position + bytes.length })

variable {t u : ScalarType} {s s' : Scalar}

/-- The payload says what is read. -/
theorem rereads_of_payload {p : Payload} (written : t.payload? s = some p)
    (small : ∀ content, p = .delimited content → content.length < 2 ^ 64)
    (said : u.interpret? p = some s') : t.Rereads u s s' := by
  have takes : u.read.Takes p.encode s' :=
    u.recognizes_read.takes ⟨p, Payload.spells_encode_of_content small, said⟩
  exact ⟨.payload p, p.encode, by rw [Write.scalar?, written, Option.map_some], fun _ => rfl,
    fun _ _ unread => Reader.run_of_takes takes unread⟩

theorem rereads_varint {raw : UInt64} (written : t.payload? s = some (.varint raw))
    (said : u.interpret? (.varint raw) = some s') : t.Rereads u s s' :=
  rereads_of_payload written nofun said

/-- A number that was written as `t` and is read in 64 bits, with and without a sign. -/
structure RereadsWide (t : ScalarType) (s : Scalar) (x : Int) : Prop where
  int64 : ∃ n : Int64, t.Rereads int64 s (.i64 n) ∧ n.toInt = x
  uint64 : ∃ n : UInt64, t.Rereads uint64 s (.u64 n) ∧ (n.toNat : Int) = x % 2 ^ 64

/-- A number that was written as `t` and is read in 32 bits, with and without a sign. -/
structure RereadsNarrow (t : ScalarType) (s : Scalar) (x : Int) : Prop where
  int32 : ∃ n : Int32, t.Rereads int32 s (.i32 n) ∧ n.toInt = x.bmod (2 ^ 32) ∧
    (-2 ^ 31 ≤ x → x < 2 ^ 31 → n.toInt = x)
  uint32 : ∃ n : UInt32, t.Rereads uint32 s (.u32 n) ∧ (n.toNat : Int) = x % 2 ^ 32 ∧
    (0 ≤ x → x < 2 ^ 32 → (n.toNat : Int) = x)

/-- Sign extension makes a 32-bit number a 64-bit number. -/
theorem rereadsWide (v : Int32) (written : t.payload? s = some (.varint v.toInt64.toUInt64)) :
    t.RereadsWide s v.toInt := by
  have represents := Represents.signed v.toInt64
  rw [Int32.toInt_toInt64] at represents
  refine ⟨⟨_, rereads_varint written rfl, ?_⟩, ⟨_, rereads_varint written rfl, represents⟩⟩
  exact Int32.toInt_toInt64 v

theorem rereadsNarrow {raw : UInt64} {x : Int} (represents : Represents raw x)
    (written : t.payload? s = some (.varint raw)) : t.RereadsNarrow s x := by
  refine ⟨⟨_, rereads_varint written rfl, represents.toInt_toInt32, fun least most => ?_⟩,
    ⟨_, rereads_varint written rfl, represents.toNat_toUInt32, fun least most => ?_⟩⟩
  · rw [represents.toInt_toInt32]
    exact Int.bmod_eq_of_le least most
  · rw [represents.toNat_toUInt32]
    exact Int.emod_eq_of_lt least most

/-- A boolean looks at all bits of the varint, which are zero only for the default. -/
theorem rereads_bool (wire : t.wireType = .varint) (carried : s.variant = t.variant) :
    ∃ raw b, t.payload? s = some (.varint raw) ∧ t.Rereads bool s (.bool b) ∧
      (b = true ↔ raw ≠ 0) ∧ (b = true ↔ s ≠ t.default) := by
  obtain ⟨p, written⟩ := Option.isSome_iff_exists.1 (isSome_payload?_iff.2 carried)
  have kind := (wireType_of_payload? written).trans wire
  cases p with
  | varint raw =>
    have truth : (raw != 0) = true ↔ raw ≠ 0 := bne_iff_ne
    have zero : raw = 0 ↔ s = t.default :=
      (Payload.isZero_varint raw).symm.trans (isZero_payload? written)
    exact ⟨raw, _, written, rereads_varint written rfl, truth, truth.trans (not_congr zero)⟩
  | fixed32 | fixed64 | delimited => cases kind

theorem rereads_zigzag_wide (v : Int32) :
    ∃ n : Int64, sint32.Rereads sint64 (.i32 v) (.i64 n) ∧ n.toInt = v.toInt := by
  refine ⟨v.toInt64, rereads_varint rfl ?_, Int32.toInt_toInt64 v⟩
  rw [interpret?, Zigzag.toUInt64_encode32, Zigzag.decode64_encode64]

/-- The varint of a number that fits is cut before the zigzag is undone, and loses nothing. -/
theorem rereads_zigzag_narrow {v : Int64} (least : -2 ^ 31 ≤ v.toInt) (most : v.toInt < 2 ^ 31) :
    ∃ n : Int32, sint64.Rereads sint32 (.i64 v) (.i32 n) ∧ n.toInt = v.toInt := by
  have value : v.toInt32.toInt = v.toInt := by
    rw [Int64.toInt_toInt32]
    exact Int.bmod_eq_of_le least most
  have fits : v.toInt32.toInt64 = v := by
    rw [← Int64.toInt_inj, Int32.toInt_toInt64, value]
  refine ⟨v.toInt32, rereads_varint rfl ?_, value⟩
  rw [interpret?, Zigzag.toUInt32_encode64 fits, Zigzag.decode32_encode32]

end ScalarType

/-- The slot holds the message and no other. -/
def FieldSlot.HoldsOnly (field : FieldSlot) (child : Message) (held : Slot) : Prop :=
  field.cardinality = .single ∧ held = .single (.message child) ∨
    field.cardinality = .repeated ∧ held = .repeated [.message child]

/-- The record of a message is its tag and its encoding behind the length. -/
theorem Encoding.writeSlot_of_holdsOnly {schema : Schema} {field : FieldSlot} {type : Nat}
    {child : Message} {content : Bytes} {held : Slot} (kind : field.kind = .message type)
    (holds : field.HoldsOnly child held)
    (encoded : (child.encode schema (schema.table type)).result = .ok content) :
    (writeSlot schema field held).result =
      .ok ((Tag.mk field.number .delimited).encode ++ Varint.delimit content) := by
  have written := writeMessage_of_encode encoded
  have sized := length_writeMessage schema (schema.table type) child
  rw [written] at sized
  have element : (writeElement schema (.message type) (.message child)).result =
      .ok (Varint.delimit content) := by
    simp [writeElement, written, ← sized, Varint.delimit]
  obtain ⟨cardinality, rfl⟩ | ⟨cardinality, rfl⟩ := holds
  · simp [writeSlot, cardinality, kind, writeSingle, Kind.omits, Kind.wireType, element]
  · simp [writeSlot, cardinality, kind, Kind.isPackable, Kind.wireType, writeElements, element]

/-- A field of bytes receives the encoding of a message, and decoding goes on behind the record. -/
theorem Message.merge_record_as_bytes {schema sender : Schema} (options : DecodeOptions)
    (access : Accessors) (m : Message) {field other : FieldSlot} {type : Nat} {child : Message}
    {content : Bytes} {held : Slot} (declared : field ∈ (schema.table m.type).slots)
    (single : field.cardinality = .single) (bytes : field.kind = .scalar .bytes)
    (number : other.number = field.number) (kind : other.kind = .message type)
    (holds : other.HoldsOnly child held)
    (encoded : (child.encode sender (sender.table type)).result = .ok content)
    (small : content.length < 2 ^ 64) :
    ∃ record, (Encoding.writeSlot sender other held).result = .ok record ∧
      ∀ rest, ∃ log, m.merge schema options access (schema.table m.type) (record ++ rest) =
        (((m.put field.index (.single (.scalar (.bytes content)))).merge schema options access
          (schema.table m.type) rest).relocate (.shift record.length)).after log := by
  refine ⟨_, Encoding.writeSlot_of_holdsOnly kind holds encoded, fun rest => ?_⟩
  have takes : ScalarType.bytes.read.Takes (Varint.delimit content) (.bytes content) :=
    Item.takes_read_scalar (p := .delimited content) rfl fun _ same =>
      Payload.delimited.inj same ▸ small
  have read (offset : Nat) : (field.kind.read (Decoding.message schema options access
      options.recursionLimit.toNat)).AnswersAt offset (Varint.delimit content)
        (.ok (.scalar (.bytes content))) := by
    rw [bytes]
    exact Read.AnswersAt.bind_pure (takes offset) Value.scalar
  have receives : field.Receives (access m.type) := .inl single
  have received := merge_behind_value declared receives (read _) rest
  rw [receive, single, bytes] at received
  rw [number]
  exact received

/-- On its own, the record is decoded into the one slot. -/
theorem Message.merge_alone {schema : Schema} {options : DecodeOptions} {access : Accessors}
    {m : Message} {i : Nat} {s : Slot} {table : FieldTable} {record : Bytes}
    (behind : ∀ rest, ∃ log, m.merge schema options access table (record ++ rest) =
      (((m.put i s).merge schema options access table rest).relocate
        (.shift record.length)).after log) :
    let alone := m.merge schema options access table record
    alone.result = .ok () ∧ alone.message.slot i = s ∧
      ∀ j, j ≠ i → alone.message.slot j = m.slot j := by
  intro alone
  obtain ⟨log, made⟩ := behind []
  rw [List.append_nil, merge_nil] at made
  have message : alone.message = m.put i s := congrArg (·.message) made
  refine ⟨congrArg (·.result) made, ?_, fun j other => ?_⟩
  · rw [message, slot_put]
  · rw [message, slot_put_of_ne other]

/-- Numbers in varints survive a change of type: 32-bit numbers that are extended, 64-bit numbers
up to what is cut off, zigzag numbers that fit, and whether a number is zero. So does text that is
read as bytes, and a field of bytes receives a message as it was encoded. Every time just the bytes
that were written are taken. -/
theorem ScalarType.rereads_compatible :
    (∀ t, t = int32 ∨ t = enum → ∀ v : Int32, t.RereadsWide (.i32 v) v.toInt) ∧
    (∀ v : Int64, int64.RereadsNarrow (.i64 v) v.toInt) ∧
    (∀ v : UInt64, uint64.RereadsNarrow (.u64 v) v.toNat) ∧
    (∀ v : UInt32, ∃ n : UInt64, uint32.Rereads uint64 (.u32 v) (.u64 n) ∧ n.toNat = v.toNat) ∧
    (∀ v : Int32, ∃ n : Int64, sint32.Rereads sint64 (.i32 v) (.i64 n) ∧ n.toInt = v.toInt) ∧
    (∀ v : Int64, -2 ^ 31 ≤ v.toInt → v.toInt < 2 ^ 31 →
      ∃ n : Int32, sint64.Rereads sint32 (.i64 v) (.i32 n) ∧ n.toInt = v.toInt) ∧
    (∀ (t : ScalarType) (s : Scalar), t.wireType = .varint → s.variant = t.variant →
      ∃ raw b, t.payload? s = some (.varint raw) ∧ t.Rereads bool s (.bool b) ∧
        (b = true ↔ raw ≠ 0) ∧ (b = true ↔ s ≠ t.default)) ∧
    (∀ s : String, (Utf8.encode s).length < 2 ^ 64 →
      string.Rereads bytes (.string s) (.bytes (Utf8.encode s))) ∧
    ∀ (schema sender : Schema) (options : DecodeOptions) (access : Accessors) (m child : Message)
      (field other : FieldSlot) (type : Nat) (content : Bytes) (held : Slot),
      field ∈ (schema.table m.type).slots → field.cardinality = .single →
      field.kind = .scalar bytes → other.number = field.number → other.kind = .message type →
      other.HoldsOnly child held →
      (child.encode sender (sender.table type)).result = .ok content → content.length < 2 ^ 64 →
      ∃ record, (Encoding.writeSlot sender other held).result = .ok record ∧
        (let alone := m.merge schema options access (schema.table m.type) record
         alone.result = .ok () ∧
           alone.message.slot field.index = .single (.scalar (.bytes content)) ∧
           ∀ i, i ≠ field.index → alone.message.slot i = m.slot i) ∧
        ∀ rest, ∃ log, m.merge schema options access (schema.table m.type) (record ++ rest) =
          (((m.put field.index (.single (.scalar (.bytes content)))).merge schema options access
            (schema.table m.type) rest).relocate (.shift record.length)).after log := by
  refine ⟨?extended, fun v => rereadsNarrow (.signed v) rfl,
    fun v => rereadsNarrow (.unsigned v) rfl, ?unsigned, rereads_zigzag_wide,
    fun v => rereads_zigzag_narrow, fun t s => rereads_bool, ?text, ?message⟩
  case extended =>
    rintro t (rfl | rfl) v
    · exact rereadsWide v rfl
    · exact rereadsWide v rfl
  case unsigned =>
    exact fun v => ⟨_, rereads_varint rfl rfl, UInt32.toNat_toUInt64 v⟩
  case text =>
    intro s small
    exact rereads_of_payload rfl (fun _ same => Payload.delimited.inj same ▸ small) rfl
  case message =>
    intro schema sender options access m child field other type content held declared single bytes
      number kind holds encoded small
    obtain ⟨record, written, behind⟩ := Message.merge_record_as_bytes options access m declared
      single bytes number kind holds encoded small
    exact ⟨record, written, Message.merge_alone behind, behind⟩

/-- The sample type as a peer sees it that keeps children as bytes. -/
def Sample.sealedFields : List FieldSpec := [⟨3, "child", .single, .scalar .bytes⟩]

def Sample.sealed : Schema :=
  ⟨[(FieldTable.build "sealed" Sample.sealedFields).toOption.getD (.empty "sealed")], by
    intro t ht
    obtain rfl := List.mem_singleton.1 ht
    exact ⟨"sealed", Sample.sealedFields, rfl⟩⟩

/-- The least number that fits, a number whose low half is zero, a character of two bytes, and a
child in front of a tag that is cut off. -/
theorem ScalarType.rereads_compatible_limits :
    (∃ n : Int32, sint64.Rereads sint32 (.i64 (-0x80000000)) (.i32 n) ∧ n.toInt = -0x80000000) ∧
    uint64.Rereads bool (.u64 0x100000000) (.bool true) ∧
    string.Rereads bytes (.string "é") (.bytes [0xC3, 0xA9]) ∧
    (let content : Bytes := [0xA1, 0x06, 0, 0, 0, 0, 0, 0, 0, 0x80]
      let child : FieldSlot := ⟨⟨3, by decide⟩, 0, "child", .single, .message 0⟩
      let m := Sample.sealed.fresh 0
      ∃ record,
        (Encoding.writeSlot Sample.schema child (.single (.message Sample.leaf))).result =
          .ok record ∧
        (m.merge Sample.sealed {} .full (Sample.sealed.table 0) record).message.slot 0 =
          .single (.scalar (.bytes content)) ∧
        ∃ log, m.merge Sample.sealed {} .full (Sample.sealed.table 0) (record ++ [0x80]) =
          (((m.put 0 (.single (.scalar (.bytes content)))).merge Sample.sealed {} .full
            (Sample.sealed.table 0) [0x80]).relocate (.shift record.length)).after log) := by
  obtain ⟨-, -, -, -, -, zigzag, truth, text, message⟩ := rereads_compatible
  refine ⟨zigzag (-0x80000000) (by decide) (by decide), ?_, text "é" (by decide), ?_⟩
  · obtain ⟨raw, b, -, reread, -, nonzero⟩ := truth uint64 (.u64 0x100000000) rfl rfl
    obtain rfl : b = true := nonzero.2 (by decide)
    exact reread
  · intro content child m
    obtain ⟨record, written, ⟨-, stored, -⟩, merged⟩ := message Sample.sealed Sample.schema {}
      .full m Sample.leaf ⟨⟨3, by decide⟩, 0, "child", .single, .scalar bytes⟩ child 0 content
      (.single (.message Sample.leaf)) (by decide) rfl rfl rfl rfl (.inl ⟨rfl, rfl⟩)
      (by decide +kernel) (by decide)
    exact ⟨record, written, stored, merged [0x80]⟩

end Protowire
