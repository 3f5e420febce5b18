import Protowire.Proofs.Decoding.Concatenation
import Protowire.Proofs.Decoding.Record

set_option autoImplicit false

/-!
# Nested messages on their own

The payload of a nested message is decoded as if it were an input of its own, under a limit that is
lower by one. What stands around it shows only in the offsets and the limit that errors mention.
-/

namespace Protowire

/-- The slot takes its values one by one, and the type lets it. -/
def FieldSlot.Receives (field : FieldSlot) (access : Access) : Prop :=
  field.cardinality = .single ∨ field.cardinality = .repeated ∧ access.append = true

namespace Message

/-- The message after one more value for the slot: a list grows, a single value is replaced. -/
def receive (m : Message) (field : FieldSlot) (v : Value) : Message :=
  match field.cardinality with
  | .repeated => m.push field.index v
  | _ => m.put field.index (.single v)

variable {m : Message} {field : FieldSlot} {v : Value}

theorem slot_receive_single (cardinality : field.cardinality = .single) :
    (m.receive field v).slot field.index = .single v := by
  rw [receive, cardinality]
  exact slot_put ..

theorem slot_receive_repeated (cardinality : field.cardinality = .repeated) :
    (m.receive field v).slot field.index = .repeated ((m.slot field.index).elements ++ [v]) := by
  rw [receive, cardinality]
  exact slot_push

theorem slot_receive_of_ne {i : Nat} (h : i ≠ field.index) :
    (m.receive field v).slot i = m.slot i := by
  unfold receive
  split
  · exact slot_push_of_ne h
  · exact slot_put_of_ne h

end Message

namespace Decoding

/-- A record with one value makes one update, and the message receives the value by it. -/
theorem exists_update_of_receives (schema : Schema) (policy : MalformedTagPolicy)
    (nested : Nat → Read Message) {access : Accessors} {type : Nat} {field : FieldSlot}
    (receives : field.Receives (access type)) :
    ∃ form, field.Takes field.kind.wireType form ∧ ∃ made : Value → Update,
      update schema policy nested field form = (do return made (← field.kind.read nested)) ∧
      ∀ {m : Message} {v : Value}, m.type = type → field ∈ (schema.table m.type).slots →
        field.kind.Holds schema v →
        m.update schema access (made v) = ⟨m.receive field v, .ok ()⟩ := by
  rcases receives with cardinality | ⟨cardinality, lets⟩
  · refine ⟨.single, .single cardinality, Update.set field.index, rfl, ?_⟩
    intro m v _ declared holds
    have slot := (schema.built_table m.type).consistent.getElem?_index declared
    have suits : (Update.set field.index v).Suits schema m.type :=
      ⟨field, slot, cardinality, holds⟩
    rw [Message.receive, cardinality]
    exact Message.update_of_suits suits
  · refine ⟨.element, .element cardinality, fun v => .append field.index [v], rfl, ?_⟩
    rintro m v rfl declared holds
    have slot := (schema.built_table m.type).consistent.getElem?_index declared
    have suits : (Update.append field.index [v]).Suits schema m.type :=
      ⟨field, slot, cardinality, by simpa using holds⟩
    have permits : (access m.type).Permits (.append field.index [v]) := .inr lets
    rw [Message.receive, cardinality, Message.update_of_permits permits]
    exact Message.update_of_suits suits

end Decoding

namespace Message

variable {schema : Schema} {options : DecodeOptions} {access : Accessors} {m : Message}
  {field : FieldSlot} {payload : Bytes}

/-- A value for the slot is received, and the rest is decoded behind it. -/
theorem merge_behind_value (declared : field ∈ (schema.table m.type).slots)
    (receives : field.Receives (access m.type)) {v : Value}
    (read : (field.kind.read (Decoding.message schema options access
      options.recursionLimit.toNat)).AnswersAt
        (Tag.mk field.number field.kind.wireType).encode.length payload (.ok v))
    (rest : Bytes) :
    let front := (Tag.mk field.number field.kind.wireType).encode ++ payload
    ∃ log, m.merge schema options access (schema.table m.type) (front ++ rest) =
      (((m.receive field v).merge schema options access (schema.table m.type) rest).relocate
        (.shift front.length)).after log := by
  intro front
  obtain ⟨form, takes, made, update, updated⟩ :=
    Decoding.exists_update_of_receives schema options.malformedTags _ receives
  have holds := read.yields
    (Decoding.yields_kind (Decoding.sound_message schema options access _) field.kind)
  have answers := read.bind_pure made
  rw [← update, ← Nat.zero_add (Tag.encode _).length] at answers
  obtain ⟨log, turn⟩ :=
    Decoding.transcript_record (Decoding.answersAt_record declared takes answers)
  have changed := updated rfl declared holds
  have alone : m.merge schema options access (schema.table m.type) front =
      ⟨⟨m.receive field v, .ok ()⟩, log⟩ := by
    rw [merge, turn, replay_turn_of_ok (by rw [changed]), changed]
    exact congrArg _ (List.append_nil log)
  exact ⟨log, merge_behind alone rest⟩

/-- A value that cannot be read ends decoding, with the message as it is. -/
theorem merge_behind_value_error (declared : field ∈ (schema.table m.type).slots)
    (receives : field.Receives (access m.type)) {e : Error}
    (read : (field.kind.read (Decoding.message schema options access
      options.recursionLimit.toNat)).AnswersAt
        (Tag.mk field.number field.kind.wireType).encode.length payload (.error e))
    (rest : Bytes) :
    let front := (Tag.mk field.number field.kind.wireType).encode ++ payload
    ∃ log, m.merge schema options access (schema.table m.type) (front ++ rest) =
      ⟨⟨m, .error e⟩, log⟩ := by
  intro front
  obtain ⟨form, takes, made, update, -⟩ :=
    Decoding.exists_update_of_receives schema options.malformedTags _ receives
  have answers := read.bind_pure made
  rw [← update, ← Nat.zero_add (Tag.encode _).length] at answers
  have nonempty : front ≠ [] := List.append_ne_nil_of_left_ne_nil (Varint.encode_ne_nil _) payload
  obtain ⟨log, failed⟩ := Decoding.transcript_record_error nonempty
    (Decoding.answersAt_record declared takes answers) rest
  refine ⟨log, ?_⟩
  rw [merge, failed]
  rfl

end Message

/-- From a payload on its own to the payload in a message around it, one level deeper. -/
def Relocation.inner (distance : Nat) : Relocation := ⟨distance, (· + 1)⟩

namespace Decoding

variable {limit : UInt32} {payload : Bytes}

/-- Behind its length, a nested message is what the payload is on its own. -/
theorem answersAt_message (schema : Schema) (policy : MalformedTagPolicy) (access : Accessors)
    (below : limit < 0xFFFFFFFF) (type offset : Nat) (small : payload.length < 2 ^ 64) :
    let options : DecodeOptions := ⟨policy, limit + 1⟩
    let child :=
      (schema.fresh type).merge schema ⟨policy, limit⟩ access (schema.table type) payload
    let distance := offset + (Varint.encode (UInt64.ofNat payload.length)).length
    (message schema options access options.recursionLimit.toNat type).AnswersAt offset
      (Varint.delimit payload) (child.relocate (.inner distance)).toLogged.result := by
  intro options child distance
  have levels : options.recursionLimit.toNat = limit.toNat + 1 := by
    have bound := UInt32.lt_iff_toNat_lt.1 below
    change (limit + 1).toNat = _
    rw [UInt32.toNat_add]
    simp at bound ⊢
    omega
  rw [levels]
  apply Read.answersAt_delimited small
  have place : (⟨distance, payload⟩ : Cursor) =
      (Cursor.ofBytes payload).relocate (.inner distance) [] := by
    simp [Cursor.relocate, Cursor.ofBytes, Relocation.inner]
  have deeper : (Relocation.inner distance).limit limit = limit + 1 := rfl
  have nested := follows_message schema policy access deeper limit.toNat
  rw [place, records_relocate nested, Message.replay_relocate]
  rfl

end Decoding

namespace Message

/-- A nested message is what decoding its payload into a fresh message under the limit below makes
of it. If that succeeds, the slot receives it, no other slot changes, and decoding goes on behind
it; if it fails, so does the whole, whatever comes behind. -/
theorem merge_nested (schema : Schema) (policy : MalformedTagPolicy) {limit : UInt32}
    (below : limit < 0xFFFFFFFF) (access : Accessors) (m : Message) {field : FieldSlot} {type : Nat}
    (declared : field ∈ (schema.table m.type).slots) (kind : field.kind = .message type)
    (receives : field.Receives (access m.type)) {payload : Bytes} (small : payload.length < 2 ^ 64)
    (rest : Bytes) :
    let options : DecodeOptions := ⟨policy, limit + 1⟩
    let own := schema.table m.type
    let header :=
      (Tag.mk field.number .delimited).encode ++ Varint.encode (UInt64.ofNat payload.length)
    let child :=
      (schema.fresh type).merge schema ⟨policy, limit⟩ access (schema.table type) payload
    let decoded := m.merge schema options access own (header ++ payload ++ rest)
    (child.result = .ok () →
      let received := m.receive field (.message child.message)
      let sequel := received.merge schema options access own rest
      (field.cardinality = .single →
        received.slot field.index = .single (.message child.message)) ∧
      (field.cardinality = .repeated → received.slot field.index =
        .repeated ((m.slot field.index).elements ++ [.message child.message])) ∧
      (∀ i, i ≠ field.index → received.slot i = m.slot i) ∧
      decoded.message = sequel.message ∧
        decoded.result =
          sequel.result.mapError (Error.relocate (.shift (header ++ payload).length))) ∧
    ∀ e, child.result = .error e →
      decoded.message = m ∧ decoded.result = .error (e.relocate (.inner header.length)) := by
  obtain ⟨number, index, name, cardinality, _⟩ := field
  cases kind
  intro options own header child decoded
  let tag := Tag.mk number .delimited
  have framed : header ++ payload = tag.encode ++ Varint.delimit payload := List.append_assoc ..
  have whole : decoded = m.merge schema options access own
      (tag.encode ++ Varint.delimit payload ++ rest) := by
    rw [← framed]
  have answers := Decoding.answersAt_message schema policy access below type tag.encode.length small
  rw [← List.length_append] at answers
  have read := answers.bind_pure Value.message
  constructor
  · intro done received sequel
    have value : (child.relocate (.inner header.length)).toLogged.result = .ok child.message := by
      rw [Decoded.toLogged_eq_ok_iff, Decoded.result_relocate, done]
      exact ⟨rfl, rfl⟩
    rw [value] at read
    obtain ⟨log, behind⟩ := merge_behind_value declared receives read rest
    have result : decoded = (sequel.relocate (.shift (header ++ payload).length)).after log := by
      rw [whole, framed]
      exact behind
    rw [result]
    exact ⟨slot_receive_single, slot_receive_repeated, fun _ => slot_receive_of_ne, rfl, rfl⟩
  · intro e failed
    have error : (child.relocate (.inner header.length)).toLogged.result =
        .error (e.relocate (.inner header.length)) := by
      rw [Decoded.toLogged_eq_error_iff, Decoded.result_relocate, failed]
      rfl
    rw [error] at read
    obtain ⟨log, refused⟩ := merge_behind_value_error declared receives read rest
    have result := whole.trans refused
    rw [result]
    exact ⟨rfl, rfl⟩

/-- A child with a name, and one with a malformed tag in it, each with a tag that is cut off behind
it. -/
theorem merge_nested_child :
    let child : FieldSlot := ⟨⟨3, by decide⟩, 0, "child", .single, .message 0⟩
    let own := Sample.schema.table 0
    let fresh := Sample.schema.fresh 0
    let named := fresh.merge Sample.schema ⟨.reject, 0⟩ .singular own [0x0A, 0x01, 0x6E]
    let broken := fresh.merge Sample.schema ⟨.reject, 0⟩ .singular own [0x0A, 0x00, 0x07]
    child ∈ own.slots ∧ child.Receives .singular ∧ named.result = .ok () ∧
      broken.result = .error (.malformedTag 2 7) ∧
      (let decoded := Sample.leaf.merge Sample.schema ⟨.reject, 1⟩ .singular own
          [0x1A, 0x03, 0x0A, 0x01, 0x6E, 0x80]
        let received := Sample.leaf.receive child (.message named.message)
        let sequel := received.merge Sample.schema ⟨.reject, 1⟩ .singular own [0x80]
        received.slot 0 = .single (.message named.message) ∧
          (∀ i, i ≠ 0 → received.slot i = Sample.leaf.slot i) ∧
          decoded.message = sequel.message ∧
          decoded.result = sequel.result.mapError (Error.relocate (.shift 5))) ∧
      let decoded := Sample.leaf.merge Sample.schema ⟨.reject, 1⟩ .singular own
        [0x1A, 0x03, 0x0A, 0x00, 0x07, 0x80]
      decoded.message = Sample.leaf ∧ decoded.result = .error (.malformedTag 4 7) := by
  intro child own fresh named broken
  have declared : child ∈ own.slots := by decide
  have receives : child.Receives .singular := .inl rfl
  have succeeds : named.result = .ok () := by decide +kernel
  have fails : broken.result = .error (.malformedTag 2 7) := by decide +kernel
  have header : (Tag.mk child.number .delimited).encode ++ Varint.encode (UInt64.ofNat 3) =
      [0x1A, 0x03] := by decide
  have below : (0 : UInt32) < 0xFFFFFFFF := by decide
  have whole (payload : Bytes) (small : payload.length < 2 ^ 64) := merge_nested Sample.schema
    .reject below .singular Sample.leaf declared rfl receives small [0x80]
  obtain ⟨single, -, others, good⟩ := (whole [0x0A, 0x01, 0x6E] (by decide)).1 succeeds
  have bad := (whole [0x0A, 0x00, 0x07] (by decide)).2 _ fails
  simp only [List.length_cons, List.length_nil, header] at good bad
  exact ⟨declared, receives, succeeds, fails, ⟨single rfl, others, good⟩, bad⟩

end Message

end Protowire
