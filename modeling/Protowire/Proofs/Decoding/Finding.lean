import Protowire.Proofs.Decoding.Grammar
import Protowire.Proofs.Decoding.Replay
import Protowire.Proofs.Read.Finding

set_option autoImplicit false

/-!
# What is found in messages

Which findings a byte string holds when it is decoded by the tables of a schema, told without the
decoder. Decoding that succeeds logs these findings in wire order and nothing else.

`inner` stands for what is found in the byte strings of embedded messages of each type.
-/

namespace Protowire

namespace Findings

open Grammar (ValueBody EntryBody FormBody RecordBody Skipped)

section

variable (policy : MalformedTagPolicy) (inner : Nat → Bytes → List Finding → Prop)

/-- A value without its tag. There is nothing to find in scalars. -/
abbrev Element : Kind → Bytes → List Finding → Prop := ValueBody (fun _ => []) inner

/-- What may follow a tag inside a map entry. -/
abbrev HalfBody (keyKind kind : Kind) : Tag → Bytes → List Finding → Prop :=
  EntryBody (Element inner keyKind) (Element inner kind) [.stray] keyKind kind

/-- The payload of a record that a slot takes in the form. -/
abbrev Accepted (field : FieldSlot) : Form → Bytes → List Finding → Prop :=
  FormBody (Element inner field.kind) (Element inner field.kind)
    (fun t => Mapped (Sequence t.Spells) fun _ => [])
    fun keyKind => Items (Tag.Leads policy (HalfBody inner keyKind field.kind))

/-- What may follow a tag in a message. -/
abbrev Body : FieldTable → Tag → Bytes → List Finding → Prop :=
  RecordBody (fun field form => Mapped (Accepted policy inner field form) (.known :: ·))
    [.known, .mismatched] [.unknown]

/-- All records of a message. -/
abbrev Records (table : FieldTable) : Bytes → List Finding → Prop :=
  Items (Tag.Leads policy (Body policy inner table))

end

/-- A message with its length, where `levels` more levels may nest. -/
def Nested (schema : Schema) (policy : MalformedTagPolicy) :
    (levels : Nat) → (type : Nat) → Bytes → List Finding → Prop
  | 0, _, _, _ => False
  | levels + 1, type, bytes, found =>
    Framed (Records policy (Nested schema policy levels) (schema.table type)) bytes found

/-- A whole input that is decoded by the table. -/
def Input (schema : Schema) (options : DecodeOptions) (table : FieldTable) :
    Bytes → List Finding → Prop :=
  Records options.malformedTags
    (Nested schema options.malformedTags options.recursionLimit.toNat) table

section Strict

variable {policy : MalformedTagPolicy} {inner strict : Nat → Bytes → List Finding → Prop}

/-- What holds as long as nothing malformed is found. -/
def Carries (P Q : Bytes → List Finding → Prop) : Prop :=
  ∀ bytes found, P bytes found → .malformed ∉ found → Q bytes found

theorem carries_items {body body' : Tag → Bytes → List Finding → Prop}
    (h : ∀ tag, Carries (body tag) (body' tag)) :
    Carries (Items (Tag.Leads policy body)) (Items (Tag.Leads .reject body')) := by
  intro bytes found items clean
  induction items with
  | done => exact .done
  | item nonempty one _ ih =>
    obtain ⟨first, others⟩ := not_or.1 (mt List.mem_append.2 clean)
    refine .item nonempty ?_ (ih others)
    cases one with
    | malformed => exact absurd List.mem_cons_self first
    | tag spelled told => exact .tag spelled (h _ _ _ told first)

theorem carries_element (h : ∀ type, Carries (inner type) (strict type)) (k : Kind) :
    Carries (Element inner k) (Element strict k) := by
  intro bytes found element clean
  cases element with
  | scalar spelled => exact .scalar spelled
  | message nested => exact .message (h _ _ _ nested clean)

theorem carries_half (h : ∀ type, Carries (inner type) (strict type)) (keyKind kind : Kind)
    (tag : Tag) : Carries (HalfBody inner keyKind kind tag) (HalfBody strict keyKind kind tag) := by
  intro payload found body clean
  cases body with
  | key isKey element => exact .key isKey (carries_element h _ _ _ element clean)
  | value isValue element => exact .value isValue (carries_element h _ _ _ element clean)
  | stray notKey notValue skipped => exact .stray notKey notValue skipped

theorem carries_accepted (h : ∀ type, Carries (inner type) (strict type)) (field : FieldSlot)
    (form : Form) :
    Carries (Accepted policy inner field form) (Accepted .reject strict field form) := by
  intro payload found accepted clean
  cases form with
  | single => exact carries_element h _ _ _ accepted clean
  | element => exact carries_element h _ _ _ accepted clean
  | packed t => exact accepted
  | entry keyKind =>
    obtain ⟨content, framed, items⟩ := accepted
    exact ⟨content, framed, carries_items (carries_half h _ _) _ _ items clean⟩

theorem carries_body (h : ∀ type, Carries (inner type) (strict type)) (table : FieldTable)
    (tag : Tag) : Carries (Body policy inner table tag) (Body .reject strict table tag) := by
  intro payload found body clean
  cases body with
  | @accepted field form _ declared number takes accepted =>
    obtain ⟨found, accepted, rfl⟩ := accepted
    have clean := mt (List.mem_cons_of_mem Finding.known) clean
    have carried := carries_accepted h field form _ _ accepted clean
    exact .accepted declared number takes ⟨found, carried, rfl⟩
  | mismatched declared number refused skipped =>
    exact .mismatched declared number refused skipped
  | unknown absent skipped => exact .unknown absent skipped

theorem carries_nested (schema : Schema) (levels type : Nat) :
    Carries (Nested schema policy levels type) (Nested schema .reject levels type) := by
  induction levels generalizing type with
  | zero => exact fun _ _ none _ => none
  | succ levels ih =>
    rintro bytes found ⟨content, framed, items⟩ clean
    exact ⟨content, framed, carries_items (carries_body ih _) _ _ items clean⟩

/-- Where no malformed tag is found, it does not matter what is done about them. -/
theorem input_reject_of_input {schema : Schema} {options : DecodeOptions} {table : FieldTable}
    {bytes : Bytes} {found : List Finding} (input : Input schema options table bytes found)
    (clean : .malformed ∉ found) :
    Input schema ⟨.reject, options.recursionLimit⟩ table bytes found :=
  carries_items (carries_body (carries_nested schema _) table) _ _ input clean

end Strict

end Findings

namespace Decoding

open Findings
open Grammar (Skipped valueBody_scalar_iff valueBody_message_iff entryBody_key_iff
  entryBody_value_iff entryBody_stray_iff recordBody_accepted_iff recordBody_mismatched_iff
  recordBody_unknown_iff)

variable {schema : Schema} {policy : MalformedTagPolicy} {nested : Nat → Read Message}
  {inner : Nat → Bytes → List Finding → Prop}

theorem tells_kind (h : ∀ type, (nested type).Tells (inner type)) (k : Kind) :
    (k.read nested).Tells (Element inner k) := by
  cases k with
  | scalar t =>
    have told := (Read.Tells.of_silent t.recognizes_read t.logs_read).bind_pure Value.scalar
    exact Read.Tells.congr told fun _ _ => Iff.symm valueBody_scalar_iff
  | message type =>
    exact Read.Tells.congr ((h type).bind_pure Value.message) fun _ _ =>
      Iff.symm valueBody_message_iff

/-- Nothing is found in a payload that is stepped over. -/
theorem tells_skip (w : WireType) :
    w.skip.Tells fun bytes found => Skipped w bytes ∧ found = [] := by
  refine (Read.Tells.of_silent w.recognizes_skip w.logs_skip).congr fun bytes found => ?_
  constructor
  · rintro ⟨_, ⟨-, skipped⟩, rfl⟩
    exact ⟨skipped, rfl⟩
  · rintro ⟨skipped, rfl⟩
    exact ⟨_, ⟨rfl, skipped⟩, rfl⟩

/-- An event in front of a payload that is stepped over. -/
theorem tells_emit_skip {β : Type} (e : Event) {f : Finding} (finding : e.finding? = some f)
    (w : WireType) (b : β) :
    (do Read.emit e; let _ ← w.skip; return b : Read β).Tells fun bytes found =>
      Skipped w bytes ∧ found = [f] := by
  have told := ((tells_skip w).bind_pure fun _ => b).emit_bind finding
  refine told.congr fun bytes found => ?_
  constructor
  · rintro ⟨_, ⟨skipped, rfl⟩, rfl⟩
    exact ⟨skipped, rfl⟩
  · rintro ⟨skipped, rfl⟩
    exact ⟨[], ⟨skipped, rfl⟩, rfl⟩

/-- The event of an unknown record comes behind the payload that it counts. -/
theorem tells_skip_emit {β : Type} {e : Nat → Event} {f : Finding}
    (finding : ∀ n, (e n).finding? = some f) (w : WireType) (b : β) :
    (do let n ← w.skip; Read.emit (e n); return b : Read β).Tells fun bytes found =>
      Skipped w bytes ∧ found = [f] := by
  have told := Read.Tells.bind w.recognizes_skip w.logs_skip fun n =>
    (Read.Tells.pure b).emit_bind (finding n)
  refine told.congr fun bytes found => ?_
  constructor
  · rintro ⟨first, _, n, rfl, ⟨-, skipped⟩, _, ⟨rfl, rfl⟩, rfl⟩
    rw [List.append_nil]
    exact ⟨skipped, rfl⟩
  · rintro ⟨skipped, rfl⟩
    exact ⟨bytes, [], _, (List.append_nil _).symm, ⟨rfl, skipped⟩, [], ⟨rfl, rfl⟩, rfl⟩

theorem finds_half (h : ∀ type, (nested type).Tells (inner type)) (keyKind kind : Kind) :
    (half policy nested keyKind kind).Finds (Tag.Leads policy (HalfBody inner keyKind kind)) := by
  refine Tag.finds_next_bind rfl fun tag => ?_
  obtain ⟨number, wireType⟩ := tag
  simp only [← Tag.mk.injEq]
  split
  · next isKey =>
    exact Read.Tells.congr ((tells_kind h keyKind).bind_pure _) fun _ _ =>
      Iff.symm (entryBody_key_iff isKey)
  · next notKey =>
    split
    · next isValue =>
      exact Read.Tells.congr ((tells_kind h kind).bind_pure _) fun _ _ =>
        Iff.symm (entryBody_value_iff isValue)
    · next notValue =>
      have told :=
        tells_emit_skip (.strayEntryField number wireType) rfl wireType (none : Option Half)
      exact told.congr fun _ _ => Iff.symm (entryBody_stray_iff notKey notValue)

theorem tells_entry (h : ∀ type, (nested type).Tells (inner type)) (keyKind kind : Kind) :
    (entry schema policy nested keyKind kind).Tells
      (Framed (Items (Tag.Leads policy (HalfBody inner keyKind kind)))) := by
  refine Read.Tells.delimited fun w found => ?_
  rw [Logged.tells_bind_pure_iff]
  exact Read.tells_values_untilEnd_iff (finds_half h keyKind kind) _ w found

theorem tells_packed (t : ScalarType) :
    (packed t).Tells (Framed (Mapped (Sequence t.Spells) fun _ => [])) := by
  have silent : (packed t).Silent :=
    .delimited fun w => t.logs_read.values_untilEnd t.consumes_read w
  exact (Read.Tells.of_silent (recognizes_packed t) silent).congr fun _ _ => mapped_framed_iff

theorem tells_update (h : ∀ type, (nested type).Tells (inner type)) (field : FieldSlot)
    (form : Form) :
    (update schema policy nested field form).Tells (Accepted policy inner field form) := by
  cases form with
  | single => exact (tells_kind h field.kind).bind_pure _
  | element => exact (tells_kind h field.kind).bind_pure _
  | packed t => exact (tells_packed t).bind_pure _
  | entry keyKind => exact (tells_entry h keyKind field.kind).bind_pure _

theorem finds_record (h : ∀ type, (nested type).Tells (inner type)) {table : FieldTable}
    (built : table.Built) :
    (record schema policy nested table).Finds (Tag.Leads policy (Body policy inner table)) := by
  refine Tag.finds_next_bind rfl fun tag => ?_
  simp only
  split
  · next field found =>
    split
    · next form takes =>
      have told := (@tells_update schema policy _ _ h field form).bind_pure some
      exact (told.emit_bind rfl).congr fun _ _ =>
        Iff.symm (recordBody_accepted_iff built found takes)
    · next mismatch =>
      have stepped := tells_emit_skip
        (.mismatchedField table.name field.number field.name field.kind tag.wireType) rfl
        tag.wireType (none : Option Update)
      refine (stepped.emit_bind rfl).congr fun payload findings =>
        Iff.trans ?_ (recordBody_mismatched_iff built found mismatch).symm
      constructor
      · rintro ⟨_, ⟨skipped, rfl⟩, rfl⟩
        exact ⟨skipped, rfl⟩
      · rintro ⟨skipped, rfl⟩
        exact ⟨_, ⟨skipped, rfl⟩, rfl⟩
  · next missing =>
    exact (tells_skip_emit (fun _ => rfl) tag.wireType none).congr fun _ _ =>
      Iff.symm (recordBody_unknown_iff built missing)

/-- All records of a window. -/
theorem tells_records_iff (h : ∀ type, (nested type).Tells (inner type)) {table : FieldTable}
    (built : table.Built) (w : Cursor) (found : List Finding) :
    (records schema policy nested table w).values.Tells found ↔
      Records policy inner table w.unread found :=
  Read.tells_values_untilEnd_iff (finds_record h built) _ w found

end Decoding

namespace Message

variable {schema : Schema} {access : Accessors} {m : Message} {t : Transcript (Option Update)}

/-- A replay that succeeds has gone through the whole transcript. -/
theorem replay_of_ok (done : (m.replay schema access t).result = .ok ()) :
    (∃ os, t.values.result = .ok os) ∧ t.values.log = (m.replay schema access t).log := by
  induction t generalizing m with
  | finished => exact ⟨⟨[], rfl⟩, rfl⟩
  | failed e log => cases done
  | turn o log next ih =>
    have further {m' : Message} (same : m.replay schema access (.turn o log next) =
        (m'.replay schema access next).after log) :
        (∃ os, (Transcript.turn o log next).values.result = .ok os) ∧
          (Transcript.turn o log next).values.log =
            (m.replay schema access (.turn o log next)).log := by
      rw [same] at done ⊢
      obtain ⟨⟨os, values⟩, logged⟩ := ih done
      rw [Transcript.values, values, logged]
      exact ⟨⟨o :: os, rfl⟩, rfl⟩
    cases o with
    | none => exact further replay_turn_none
    | some u =>
      cases made : (m.update schema access u).result with
      | error e =>
        rw [replay_turn_of_error made, made] at done
        cases done
      | ok _ => exact further (replay_turn_of_ok made)

end Message

namespace Decoding

open Findings

theorem tells_message (schema : Schema) (options : DecodeOptions) (levels type : Nat) :
    (message schema options .full levels type).Tells
      (Nested schema options.malformedTags levels type) := by
  induction levels generalizing type with
  | zero =>
    intro c found rest
    constructor
    · rintro ⟨⟨⟨m, value⟩, -⟩, -⟩
      cases value
    · rintro ⟨_, -, none⟩
      exact none.elim
  | succ levels ih =>
    refine Read.Tells.delimited fun w found => ?_
    rw [← @tells_records_iff schema _ _ _ ih _ (schema.built_table type)]
    have sound := sound_message schema options .full levels
    have replayed := replay_records sound options.malformedTags (schema.fresh type) w
    constructor
    · rintro ⟨⟨m, value⟩, shows⟩
      have whole := Message.replay_of_ok (Decoded.toLogged_eq_ok_iff.1 value).1
      exact ⟨whole.1, whole.2 ▸ shows⟩
    · rintro ⟨⟨os, values⟩, shows⟩
      have value := replayed.trans (congrArg _ values)
      have whole := Message.replay_of_ok (Decoded.toLogged_eq_ok_iff.1 value).1
      exact ⟨⟨_, value⟩, (congrArg (Shows · found) whole.2).mp shows⟩

end Decoding

end Protowire
