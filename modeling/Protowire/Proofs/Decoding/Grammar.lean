import Protowire.Proofs.Decoding.Body
import Protowire.Proofs.Decoding.Fits
import Protowire.Proofs.Read.Tag

set_option autoImplicit false

/-!
# The grammar of messages

Which byte strings are messages, and what they say, told without a cursor: a message is a sequence
of records, and a record a tag with its payload. Under the strict policy decoding succeeds on these
and on nothing else.

`language` stands for the byte strings of embedded messages of each type.
-/

namespace Protowire

namespace Grammar

variable {α : Type}

/-- A tag and behind it what `body` says may follow the tag. -/
def Tagged (body : Tag → Bytes → α → Prop) (bytes : Bytes) (a : α) : Prop :=
  ∃ head payload tag, bytes = head ++ payload ∧ Tag.Spells head tag ∧ body tag payload a

section

variable (schema : Schema) (language : Nat → Bytes → Message → Prop)

/-- A value without its tag. -/
abbrev Element : Kind → Bytes → Value → Prop :=
  ValueBody .scalar fun type => Mapped (language type) .message

/-- What may follow a tag inside a map entry. -/
abbrev HalfBody (keyKind kind : Kind) : Tag → Bytes → Option Half → Prop :=
  EntryBody (Mapped (Element language keyKind) (some <| .key ·))
    (Mapped (Element language kind) (some <| .value ·)) none keyKind kind

/-- The last key and the last value are what an entry inserts. -/
def insertion (field : FieldSlot) (keyKind : Kind) (halves : List (Option Half)) : Update :=
  .insert field.index (Half.lastKey (keyKind.default schema) halves)
    (Half.lastValue (field.kind.default schema) halves)

/-- The payload of a record that a slot takes in the form. -/
abbrev Accepted (field : FieldSlot) : Form → Bytes → Update → Prop :=
  FormBody (Mapped (Element language field.kind) (.set field.index))
    (Mapped (Element language field.kind) (.append field.index [·]))
    (fun t => Mapped (Sequence (Element language (.scalar t))) (.append field.index))
    fun keyKind => Mapped (Sequence (Tagged (HalfBody language keyKind field.kind)))
      (insertion schema field keyKind)

/-- What may follow a tag in a message. A record that no slot takes says nothing. -/
abbrev Body : FieldTable → Tag → Bytes → Option Update → Prop :=
  RecordBody (fun field form => Mapped (Accepted schema language field form) some) none none

abbrev Record (table : FieldTable) : Bytes → Option Update → Prop :=
  Tagged (Body schema language table)

variable {schema language}

theorem record_of_accepted {table : FieldTable} {head payload : Bytes} {tag : Tag}
    {field : FieldSlot} {form : Form} {u : Update} (spelled : Tag.Spells head tag)
    (declared : field ∈ table.slots) (number : field.number = tag.number)
    (takes : field.Takes tag.wireType form)
    (accepted : Accepted schema language field form payload u) :
    Record schema language table (head ++ payload) (some u) :=
  ⟨head, payload, tag, rfl, spelled, .accepted declared number takes ⟨u, accepted, rfl⟩⟩

end

/-- A sequence of records, and the message that all of them make of another one of the type. -/
def Records (schema : Schema) (language : Nat → Bytes → Message → Prop) (before : Message)
    (bytes : Bytes) (after : Message) : Prop :=
  ∃ os, Sequence (Record schema language (schema.table before.type)) bytes os ∧
    os.foldl Message.apply before = after

/-- The same for records whose updates the type lets be made. -/
def Permitted (schema : Schema) (access : Accessors) (language : Nat → Bytes → Message → Prop)
    (before : Message) (bytes : Bytes) (after : Message) : Prop :=
  ∃ os, Sequence (Record schema language (schema.table before.type)) bytes os ∧
    (∀ u, some u ∈ os → (access before.type).Permits u) ∧ os.foldl Message.apply before = after

/-- A message with its length, where `levels` more levels may nest. With no level left there is
none. -/
def Nested (schema : Schema) : (levels : Nat) → (type : Nat) → Bytes → Message → Prop
  | 0, _, _, _ => False
  | levels + 1, type, bytes, m =>
    Framed (Records schema (Nested schema levels) (schema.fresh type)) bytes m

end Grammar

namespace Decoding

open Grammar

variable {schema : Schema} {nested : Nat → Read Message}
  {language : Nat → Bytes → Message → Prop}

theorem recognizes_kind (h : ∀ type, (nested type).Recognizes (language type)) (k : Kind) :
    (k.read nested).Recognizes (Element language k) := by
  cases k with
  | scalar t =>
    exact (t.recognizes_read.bind_pure _).congr fun _ _ => Iff.symm valueBody_scalar_iff
  | message type =>
    exact ((h type).bind_pure _).congr fun _ _ => Iff.symm valueBody_message_iff

/-- To step over a payload is to take it and to give nothing. -/
theorem recognizes_skipped {β : Type} {w : WireType} {f : Nat → Read (Option β)}
    (h : ∀ n, (f n).Recognizes fun bytes o => bytes = [] ∧ o = none) :
    (w.skip >>= f).Recognizes fun bytes o => Skipped w bytes ∧ o = none := by
  refine (w.recognizes_skip.bind h).congr fun bytes o => ?_
  constructor
  · rintro ⟨first, _, n, rfl, ⟨-, spelled⟩, rfl, rfl⟩
    rw [List.append_nil]
    exact ⟨spelled, rfl⟩
  · rintro ⟨spelled, rfl⟩
    exact ⟨bytes, [], _, (List.append_nil _).symm, ⟨rfl, spelled⟩, rfl, rfl⟩

theorem recognizes_half (h : ∀ type, (nested type).Recognizes (language type))
    (keyKind kind : Kind) :
    (half .reject nested keyKind kind).Recognizes
      (Tagged (HalfBody language keyKind kind)) := by
  refine Tag.recognizes_next_bind fun tag => ?_
  obtain ⟨number, wireType⟩ := tag
  simp only [← Tag.mk.injEq]
  split
  · next isKey =>
    exact ((recognizes_kind h keyKind).bind_pure _).congr fun _ _ =>
      Iff.symm (entryBody_key_iff isKey)
  · next notKey =>
    split
    · next isValue =>
      exact ((recognizes_kind h kind).bind_pure _).congr fun _ _ =>
        Iff.symm (entryBody_value_iff isValue)
    · next notValue =>
      refine .emit_bind _ ((recognizes_skipped fun _ => .pure none).congr fun _ _ => ?_)
      exact (entryBody_stray_iff notKey notValue).symm

theorem recognizes_entry (h : ∀ type, (nested type).Recognizes (language type))
    (keyKind kind : Kind) :
    (entry schema .reject nested keyKind kind).Recognizes
      (Framed (Mapped (Sequence (Tagged (HalfBody language keyKind kind))) fun halves =>
        (Half.lastKey (keyKind.default schema) halves,
          Half.lastValue (kind.default schema) halves))) := by
  refine Read.recognizes_delimited fun c kv => ?_
  rw [Logged.result_bind, Result.bind_eq_ok_iff]
  refine exists_congr fun found => and_congr ?_ ?_
  · exact Read.values_untilEnd_eq_ok_iff (recognizes_half h keyKind kind)
  · rw [Logged.result_pure, Except.ok.injEq]

theorem recognizes_packed (t : ScalarType) :
    (packed t).Recognizes (Framed (Sequence t.Spells)) :=
  Read.recognizes_delimited fun _ _ => Read.values_untilEnd_eq_ok_iff t.recognizes_read

theorem sequence_scalar_iff {t : ScalarType} {content : Bytes} {vs : List Value} :
    Sequence (Element language (.scalar t)) content vs ↔
      Mapped (Sequence t.Spells) (List.map .scalar) content vs := by
  rw [← sequence_map_iff]
  exact Sequence.congr fun _ _ => valueBody_scalar_iff

theorem recognizes_update (h : ∀ type, (nested type).Recognizes (language type))
    (field : FieldSlot) (form : Form) :
    (update schema .reject nested field form).Recognizes (Accepted schema language field form) := by
  cases form with
  | single => exact (recognizes_kind h field.kind).bind_pure _
  | element => exact (recognizes_kind h field.kind).bind_pure _
  | packed t =>
    refine ((recognizes_packed t).bind_pure _).congr fun payload u => ?_
    rw [mapped_framed_iff]
    refine exists_congr fun content => and_congr_right fun _ => ?_
    constructor
    · rintro ⟨ss, scalars, rfl⟩
      exact ⟨_, sequence_scalar_iff.2 ⟨ss, scalars, rfl⟩, rfl⟩
    · rintro ⟨vs, elements, rfl⟩
      obtain ⟨ss, scalars, rfl⟩ := sequence_scalar_iff.1 elements
      exact ⟨ss, scalars, rfl⟩
  | entry keyKind =>
    refine ((recognizes_entry h keyKind field.kind).bind_pure _).congr fun payload u => ?_
    rw [mapped_framed_iff]
    refine exists_congr fun content => and_congr_right fun _ => ?_
    constructor
    · rintro ⟨_, ⟨halves, found, rfl⟩, rfl⟩
      exact ⟨halves, found, rfl⟩
    · rintro ⟨halves, found, rfl⟩
      exact ⟨_, ⟨halves, found, rfl⟩, rfl⟩

/-- A record is read as the grammar says. -/
theorem recognizes_record (h : ∀ type, (nested type).Recognizes (language type))
    {table : FieldTable} (built : table.Built) :
    (record schema .reject nested table).Recognizes (Record schema language table) := by
  refine Tag.recognizes_next_bind fun tag => ?_
  simp only
  split
  · next field found =>
    refine .emit_bind _ ?_
    split
    · next form takes =>
      exact ((recognizes_update h field form).bind_pure _).congr fun _ _ =>
        Iff.symm (recordBody_accepted_iff built found takes)
    · next mismatch =>
      refine .emit_bind _ ((recognizes_skipped fun _ => .pure none).congr fun _ _ => ?_)
      exact (recordBody_mismatched_iff built found mismatch).symm
  · next missing =>
    refine (recognizes_skipped fun _ => .emit_bind _ (.pure none)).congr fun _ _ => ?_
    exact (recordBody_unknown_iff built missing).symm

/-- Records read into a message make of it what the grammar says, if its type lets them. -/
theorem replay_eq_ok_iff_permitted (sound : Sound schema nested)
    (h : ∀ type, (nested type).Recognizes (language type)) (access : Accessors) (m m' : Message)
    (w : Cursor) :
    (m.replay schema access
      (records schema .reject nested (schema.table m.type) w)).toLogged.result = .ok m' ↔
      Permitted schema access language m w.unread m' := by
  rw [Message.replay_eq_ok_iff (all_records sound m.type w)]
  refine exists_congr fun os => and_congr_left fun _ => ?_
  exact Read.values_untilEnd_eq_ok_iff (recognizes_record h (schema.built_table m.type))

theorem replay_eq_ok_iff (sound : Sound schema nested)
    (h : ∀ type, (nested type).Recognizes (language type)) (m m' : Message) (w : Cursor) :
    (m.replay schema .full
      (records schema .reject nested (schema.table m.type) w)).toLogged.result = .ok m' ↔
      Records schema language m w.unread m' := by
  rw [replay_eq_ok_iff_permitted sound h]
  refine exists_congr fun os => and_congr_right fun _ => and_iff_right ?_
  exact fun u _ => Access.permits_full u

/-- Strict reading of a message is a matter of the bytes that it takes, whatever types let be
changed. -/
theorem exists_recognizes_message (schema : Schema) (limit : UInt32) (access : Accessors)
    (levels : Nat) :
    ∃ language : Nat → Bytes → Message → Prop, ∀ type,
      (message schema ⟨.reject, limit⟩ access levels type).Recognizes (language type) := by
  induction levels with
  | zero => exact ⟨fun _ _ _ => False, fun type => Read.Recognizes.fail _⟩
  | succ levels ih =>
    obtain ⟨language, recognizes⟩ := ih
    have sound := sound_message schema ⟨.reject, limit⟩ access levels
    refine ⟨fun type => Framed (Permitted schema access language (schema.fresh type)), ?_⟩
    exact fun type => Read.recognizes_delimited fun w m =>
      replay_eq_ok_iff_permitted sound recognizes access (schema.fresh type) m w

theorem recognizes_message (schema : Schema) (limit : UInt32) (levels type : Nat) :
    (message schema ⟨.reject, limit⟩ .full levels type).Recognizes (Nested schema levels type) := by
  induction levels generalizing type with
  | zero => exact Read.Recognizes.fail _
  | succ levels ih =>
    have sound := sound_message schema ⟨.reject, limit⟩ .full levels
    exact Read.recognizes_delimited fun w m => replay_eq_ok_iff sound ih (schema.fresh type) m w

end Decoding

namespace Message

open Grammar

/-- Strict decoding through the message's own table succeeds exactly on sequences of records, with
nested messages at most as deep as the limit, and leaves the message with the updates of all
records applied to it in wire order: each slot with what the updates that go to it make of it. -/
theorem merge_reject_iff_grammar (schema : Schema) (limit : UInt32) (m : Message)
    (bytes : Bytes) :
    let record := Record schema (Nested schema limit.toNat) (schema.table m.type)
    let decoded := m.merge schema ⟨.reject, limit⟩ .full (schema.table m.type) bytes
    (decoded.result = .ok () ↔ ∃ os, Sequence record bytes os) ∧
      ∀ os, Sequence record bytes os → decoded.message = os.foldl apply m ∧
        ∀ i, decoded.message.slot i = os.foldl (Slot.after i) (m.slot i) := by
  intro record decoded
  have answer : ∀ m', decoded.result = .ok () ∧ decoded.message = m' ↔
      Records schema (Nested schema limit.toNat) m bytes m' := by
    intro m'
    rw [← Decoded.toLogged_eq_ok_iff]
    exact Decoding.replay_eq_ok_iff (Decoding.sound_message schema ⟨.reject, limit⟩ .full _)
      (Decoding.recognizes_message schema limit _) m m' (.ofBytes bytes)
  refine ⟨⟨fun success => ?_, ?_⟩, ?_⟩
  · obtain ⟨os, sequence, -⟩ := (answer decoded.message).1 ⟨success, rfl⟩
    exact ⟨os, sequence⟩
  · rintro ⟨os, sequence⟩
    exact ((answer _).2 ⟨os, sequence, rfl⟩).1
  · intro os sequence
    have message : decoded.message = os.foldl apply m := ((answer _).2 ⟨os, sequence, rfl⟩).2
    refine ⟨message, fun i => ?_⟩
    rw [message, slot_foldl_apply]

end Message

end Protowire
