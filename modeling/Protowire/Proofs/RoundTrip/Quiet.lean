import Protowire.Proofs.Decoding.Logs
import Protowire.Proofs.Encoding.Parts
import Protowire.Proofs.Read.Resync
import Protowire.Proofs.RoundTrip
import Protowire.Proofs.Writer

set_option autoImplicit false

/-!
# Nothing to say about what was written

Whatever message is written, decoding what was written by the same table leaves nothing but traces
in the log, also if messages turn out to be nested too deep. Of the message no more is asked than
that it can be written.
-/

namespace Protowire

/-- Nothing in the log is above the trace level. -/
def Traces (log : List Event) : Prop := ∀ e ∈ log, e.level = .trace

theorem traces_nil : Traces [] := by simp [Traces]

theorem Traces.append {log log' : List Event} (h : Traces log) (h' : Traces log') :
    Traces (log ++ log') :=
  List.forall_mem_append.2 ⟨h, h'⟩

namespace Read

variable {α β : Type} {x : Read α}

/-- With the bytes in front of it, whatever comes behind them, the read leaves nothing but traces,
and takes just the bytes if it succeeds. -/
def Quiet (x : Read α) (bytes : Bytes) : Prop :=
  ∀ offset after, Traces (x.run ⟨offset, bytes ++ after⟩).log ∧
    ∀ a, (x.run ⟨offset, bytes ++ after⟩).result = .ok a →
      (x.run ⟨offset, bytes ++ after⟩).rest = ⟨offset + bytes.length, after⟩

namespace Quiet

theorem of_takes {bytes : Bytes} {a : α} (takes : x.Takes bytes a) (silent : x.Silent) :
    x.Quiet bytes := by
  intro offset after
  rw [silent.log_eq]
  exact ⟨traces_nil, fun _ _ => (takes_iff.1 takes offset after).2⟩

theorem fail (e : Error) (bytes : Bytes) : (Read.fail e : Read α).Quiet bytes :=
  fun _ _ => ⟨traces_nil, nofun⟩

theorem bind {f : α → Read β} {first second : Bytes} {a : α} (takes : x.Takes first a)
    (hx : x.Quiet first) (hf : (f a).Quiet second) : (x >>= f).Quiet (first ++ second) := by
  intro offset after
  obtain ⟨value, rest⟩ := takes_iff.1 takes offset (second ++ after)
  have front := (hx offset (second ++ after)).1
  obtain ⟨behind, final⟩ := hf (offset + first.length) after
  rw [List.append_assoc, run_bind_of_ok value, rest]
  refine ⟨front.append behind, fun b hb => ?_⟩
  rw [final b hb, List.length_append, Nat.add_assoc]

theorem bind_pure {bytes : Bytes} (hx : x.Quiet bytes) (f : α → β) :
    (x >>= fun a => pure (f a)).Quiet bytes := by
  intro offset after
  obtain ⟨traces, final⟩ := hx offset after
  cases h : (x.run ⟨offset, bytes ++ after⟩).result with
  | error e =>
    rw [run_bind_of_error h]
    exact ⟨traces, nofun⟩
  | ok a =>
    rw [run_bind_of_ok h, run_pure, final a h]
    exact ⟨traces.append traces_nil, fun _ _ => rfl⟩

theorem emit_bind {bytes : Bytes} {e : Event} (level : e.level = .trace) (hx : x.Quiet bytes) :
    (Read.emit e >>= fun _ => x).Quiet bytes := by
  have quiet : (Read.emit e).Quiet [] :=
    fun _ _ => ⟨by simpa [Traces, Read.emit] using level, fun _ _ => rfl⟩
  exact quiet.bind (takes_emit e) hx

theorem delimited {inner : Cursor → Logged α} {content : Bytes} (small : content.length < 2 ^ 64)
    (h : ∀ offset, Traces (inner ⟨offset, content⟩).log) :
    (Read.delimited inner).Quiet (Varint.delimit content) := by
  have head := recognizes_varint.takes (Varint.spells_encode (UInt64.ofNat content.length))
  refine bind head (of_takes head Logs.varint) fun offset after => ?_
  rw [UInt64.toNat_ofNat', Nat.mod_eq_of_lt small]
  simp [window, Cursor.take, Cursor.drop, Cursor.remaining, h]

end Quiet

/-- The bytes are quiet pieces one behind the other. -/
def Pieces (x : Read α) (bytes : Bytes) : Prop :=
  ∃ pieces : List Bytes, bytes = pieces.flatten ∧ ∀ piece ∈ pieces, piece ≠ [] ∧ x.Quiet piece

theorem pieces_nil : x.Pieces [] := ⟨[], rfl, by simp⟩

theorem Quiet.pieces {bytes : Bytes} (quiet : x.Quiet bytes) (nonempty : bytes ≠ []) :
    x.Pieces bytes :=
  ⟨[bytes], by simp, by simpa using ⟨nonempty, quiet⟩⟩

theorem Pieces.append {bytes bytes' : Bytes} :
    x.Pieces bytes → x.Pieces bytes' → x.Pieces (bytes ++ bytes') := by
  rintro ⟨pieces, rfl, h⟩ ⟨pieces', rfl, h'⟩
  exact ⟨pieces ++ pieces', List.flatten_append.symm, List.forall_mem_append.2 ⟨h, h'⟩⟩

end Read

theorem Read.Pieces.traces {α : Type} {x : Read α} {bytes : Bytes} (h : x.Pieces bytes)
    (consumes : x.Consumes) (offset : Nat) :
    Traces (x.untilEnd consumes ⟨offset, bytes⟩).values.log := by
  obtain ⟨pieces, rfl, quiet⟩ := h
  induction pieces generalizing offset with
  | nil =>
    rw [untilEnd_of_nil rfl]
    exact traces_nil
  | cons piece pieces ih =>
    obtain ⟨⟨nonempty, first⟩, others⟩ := List.forall_mem_cons.1 quiet
    have more : (⟨offset, piece ++ pieces.flatten⟩ : Cursor).unread ≠ [] :=
      List.append_ne_nil_of_left_ne_nil nonempty _
    obtain ⟨traces, final⟩ := first offset pieces.flatten
    rw [List.flatten_cons]
    cases h : (x.run ⟨offset, piece ++ pieces.flatten⟩).result with
    | error e =>
      rw [untilEnd_of_error more h]
      exact traces
    | ok a =>
      rw [untilEnd_of_ok more h, final a h]
      exact traces.append (ih _ others)

namespace Decoding

open Read

variable {schema : Schema} {policy : MalformedTagPolicy} {nested : Nat → Read Message}

theorem quiet_next (policy : MalformedTagPolicy) (t : Tag) : (Tag.next policy).Quiet t.encode := by
  intro offset after
  obtain ⟨value, rest⟩ := takes_iff.1 (Tag.recognizes_read.takes t.spells_encode) offset after
  rw [Tag.next_of_ok value, Silent.log_eq Tag.logs_read]
  exact ⟨traces_nil, fun _ _ => rest⟩

theorem quiet_next_bind {β : Type} {f : Option Tag → Read β} {t : Tag} {payload : Bytes}
    (h : (f (some t)).Quiet payload) : (Tag.next policy >>= f).Quiet (t.encode ++ payload) :=
  (quiet_next policy t).bind (Tag.takes_next policy t.spells_encode) h

theorem quiet_key {keyKind kind : Kind} {payload : Bytes}
    (h : (keyKind.read nested).Quiet payload) :
    (half policy nested keyKind kind).Quiet
      ((Tag.mk .key keyKind.wireType).encode ++ payload) := by
  refine quiet_next_bind ?_
  simp only [and_self, if_true]
  exact h.bind_pure _

theorem quiet_value {keyKind kind : Kind} {payload : Bytes}
    (h : (kind.read nested).Quiet payload) :
    (half policy nested keyKind kind).Quiet
      ((Tag.mk .value kind.wireType).encode ++ payload) := by
  have different : FieldNumber.value ≠ FieldNumber.key := by decide
  refine quiet_next_bind ?_
  simp only [different, false_and, if_false, and_self, if_true]
  exact h.bind_pure _

theorem quiet_entry {keyKind kind : Kind} {content : Bytes}
    (h : (half policy nested keyKind kind).Pieces content) (small : content.length < 2 ^ 64) :
    (entry schema policy nested keyKind kind).Quiet (Varint.delimit content) := by
  refine Quiet.delimited small fun offset => ?_
  rw [Logged.log_bind_pure]
  exact h.traces (consumes_half policy nested keyKind kind) offset

theorem quiet_packed (t : ScalarType) {content : Bytes} (small : content.length < 2 ^ 64) :
    (packed t).Quiet (Varint.delimit content) := by
  refine Quiet.delimited small fun offset => ?_
  have silent := t.logs_read (p := fun _ => False)
  exact fun e he => (silent.values_untilEnd t.consumes_read ⟨offset, content⟩ e he).elim

/-- A record of a known field, in a form that the field takes, leaves one trace of its own. -/
theorem quiet_record {table : FieldTable} (built : table.Built) {field : FieldSlot}
    (declared : field ∈ table.slots) {w : WireType} {form : Form} (takes : field.Takes w form)
    {payload : Bytes} (h : (update schema policy nested field form).Quiet payload) :
    (record schema policy nested table).Quiet ((Tag.mk field.number w).encode ++ payload) := by
  have found := built.consistent.slotByNumber?_eq_some_iff.2 ⟨declared, rfl⟩
  refine quiet_next_bind ?_
  simp only [found, FieldSlot.form?_eq_some_iff.2 takes]
  exact (h.bind_pure some).emit_bind rfl

section Written

open Encoding

variable {options : DecodeOptions} {access : Accessors}

/-- A value behind its tag is one piece, and one that is left off is none. -/
theorem pieces_single {α : Type} {x : Read α} {number : FieldNumber} {k : Kind} {v : Value}
    {element : Logged Bytes} {bytes : Bytes}
    (h : (writeSingle number k v element).result = .ok bytes)
    (quiet : ∀ payload, element.result = .ok payload → payload.length ≤ bytes.length →
      x.Quiet ((Tag.mk number k.wireType).encode ++ payload)) : x.Pieces bytes := by
  rcases writeSingle_eq_ok h with rfl | ⟨payload, written, rfl⟩
  · exact pieces_nil
  · refine (quiet payload written ?_).pieces (Reference.tagged_ne_nil _ _)
    rw [List.length_append]
    exact Nat.le_add_left _ _

mutual

-- over the value and not the levels: where no level is left nothing is read and nothing logged
theorem quiet_written {k : Kind} {v : Value} {bytes : Bytes}
    (h : (writeElement schema k v).result = .ok bytes) (small : bytes.length < 2 ^ 64)
    (levels : Nat) : (k.read (message schema options access levels)).Quiet bytes := by
  cases v with
  | scalar s =>
    obtain ⟨t, p, rfl, payload, rfl⟩ := writeElement_scalar_eq_ok h
    have takes := Item.takes_read_scalar payload fun content same => by
      rw [same] at small
      exact length_lt_of_delimit small
    exact (Quiet.of_takes takes t.logs_read).bind_pure Value.scalar
  | message m =>
    obtain ⟨type, content, rfl, written, rfl⟩ := writeElement_message_eq_ok h
    refine Quiet.bind_pure ?_ Value.message
    cases levels with
    | zero => exact Quiet.fail _ _
    | succ levels =>
      have short := length_lt_of_delimit small
      have pieces := pieces_written written short levels
      refine Quiet.delimited short fun offset e he => ?_
      exact pieces.traces (consumes_record _ _ _ _) offset e (Message.log_replay_subset he)

theorem pieces_elements {α : Type} {x : Read α} {lead : Bytes} {k : Kind} {vs : List Value}
    {bytes : Bytes} (h : (writeElements schema lead k vs).result = .ok bytes)
    (small : bytes.length < 2 ^ 64) (nonempty : lead ≠ []) (levels : Nat)
    (quiet : ∀ payload, (k.read (message schema options access levels)).Quiet payload →
      x.Quiet (lead ++ payload)) : x.Pieces bytes := by
  cases vs with
  | nil =>
    obtain rfl := Except.ok.inj h
    exact pieces_nil
  | cons v vs =>
    obtain ⟨payload, others, first, later, rfl⟩ := writeElements_cons_eq_ok h
    simp only [List.length_append] at small
    have here := quiet payload (quiet_written first (by omega) levels)
    exact (here.pieces (List.append_ne_nil_of_left_ne_nil nonempty _)).append
      (pieces_elements later (by omega) nonempty levels quiet)

theorem pieces_entry {keyKind kind : Kind} {e : Entry} {bytes : Bytes}
    (h : (writeEntry schema keyKind kind e).result = .ok bytes) (small : bytes.length < 2 ^ 64)
    (levels : Nat) :
    (half options.malformedTags (message schema options access levels) keyKind kind).Pieces
      bytes := by
  cases e with
  | mk key value =>
    obtain ⟨first, second, keyed, valued, rfl⟩ := writeEntry_eq_ok h
    rw [List.length_append] at small
    refine (pieces_single keyed fun payload written short => ?_).append
      (pieces_single valued fun payload written short => ?_)
    · exact quiet_key (quiet_written written (by omega) levels)
    · exact quiet_value (quiet_written written (by omega) levels)

theorem pieces_entries {α : Type} {x : Read α} {number : FieldNumber} {keyKind kind : Kind}
    {es : List Entry} {bytes : Bytes}
    (h : (writeEntries schema number keyKind kind es).result = .ok bytes)
    (small : bytes.length < 2 ^ 64) (levels : Nat)
    (quiet : ∀ content,
      (half options.malformedTags (message schema options access levels) keyKind kind).Pieces
        content →
      content.length < 2 ^ 64 →
      x.Quiet ((Tag.mk number .delimited).encode ++ Varint.delimit content)) :
    x.Pieces bytes := by
  cases es with
  | nil =>
    obtain rfl := Except.ok.inj h
    exact pieces_nil
  | cons e es =>
    obtain ⟨content, others, first, later, rfl⟩ := writeEntries_cons_eq_ok h
    simp only [List.length_append] at small
    have short : content.length < 2 ^ 64 := length_lt_of_delimit (by omega)
    have here := quiet content (pieces_entry first short levels) short
    exact (here.pieces (Reference.tagged_ne_nil _ _)).append
      (pieces_entries later (by omega) levels quiet)

theorem pieces_slot {table : FieldTable} (built : table.Built) {field : FieldSlot}
    (declared : field ∈ table.slots) {slot : Slot} {bytes : Bytes}
    (h : (writeSlot schema field slot).result = .ok bytes) (small : bytes.length < 2 ^ 64)
    (levels : Nat) :
    (record schema options.malformedTags (message schema options access levels) table).Pieces
      bytes := by
  cases slot with
  | unset =>
    obtain rfl := Except.ok.inj h
    exact pieces_nil
  | single v =>
    simp only [writeSlot] at h
    split at h
    · next cardinality =>
      refine pieces_single h fun payload written short => ?_
      have quiet := quiet_written written (by omega) levels
      exact quiet_record built declared (.single cardinality) (quiet.bind_pure _)
    · cases h
  | repeated vs =>
    obtain ⟨cardinality, rfl | ⟨packable, content, rfl⟩ | ⟨notPackable, written⟩⟩ :=
      writeSlot_repeated_eq_ok h
    · exact pieces_nil
    · obtain ⟨t, scalar⟩ := field.kind.exists_scalar_of_isPackable packable
      rw [List.length_append] at small
      have short : content.length < 2 ^ 64 := length_lt_of_delimit (by omega)
      refine Quiet.pieces ?_ (Reference.tagged_ne_nil _ _)
      exact quiet_record built declared (.packed cardinality scalar packable)
        ((quiet_packed t short).bind_pure _)
    · have delimited : field.kind.wireType = .delimited := by
        simpa [Kind.isPackable] using notPackable
      refine pieces_elements written small (Reference.encode_tag_ne_nil _) levels
        fun payload quiet => ?_
      have takes : field.Takes .delimited .element := delimited ▸ .element cardinality
      exact quiet_record built declared takes (quiet.bind_pure _)
  | map es =>
    simp only [writeSlot] at h
    split at h
    · next keyKind cardinality =>
      refine pieces_entries h small levels fun content pieces short => ?_
      exact quiet_record built declared (.entry cardinality)
        ((quiet_entry pieces short).bind_pure _)
    · cases h

theorem pieces_slots {table : FieldTable} (built : table.Built) {fields : List FieldSlot}
    (declared : ∀ field ∈ fields, field ∈ table.slots) {slots : List Slot} {bytes : Bytes}
    (h : (writeSlots schema fields slots).result = .ok bytes) (small : bytes.length < 2 ^ 64)
    (levels : Nat) :
    (record schema options.malformedTags (message schema options access levels) table).Pieces
      bytes := by
  cases slots with
  | nil =>
    have nothing : bytes = [] := by cases fields <;> exact (Except.ok.inj h).symm
    rw [nothing]
    exact pieces_nil
  | cons slot slots =>
    cases fields with
    | nil =>
      obtain rfl := Except.ok.inj h
      exact pieces_nil
    | cons field fields =>
      obtain ⟨first, others, here, later, rfl⟩ := writeSlots_cons_eq_ok h
      obtain ⟨fieldDeclared, declared⟩ := List.forall_mem_cons.1 declared
      rw [List.length_append] at small
      exact (pieces_slot built fieldDeclared here (by omega) levels).append
        (pieces_slots built declared later (by omega) levels)

theorem pieces_written {type : Nat} {m : Message} {bytes : Bytes}
    (h : (writeMessage schema (schema.table type) m).result = .ok bytes)
    (small : bytes.length < 2 ^ 64) (levels : Nat) :
    (record schema options.malformedTags (message schema options access levels)
      (schema.table type)).Pieces bytes := by
  cases m with
  | mk _ slots =>
    exact pieces_slots (schema.built_table type) (fun _ declared => declared) h small levels

end

end Written

end Decoding

namespace Message

theorem traces_merge_encode {schema : Schema} {type : Nat} {m : Message} {bytes : Bytes}
    (written : (m.encode schema (schema.table type)).result = .ok bytes)
    (small : bytes.length < 2 ^ 64) (options : DecodeOptions) (access : Accessors)
    (onto : Message) :
    Traces (onto.merge schema options access (schema.table type) bytes).log := by
  have written := Encoding.writeMessage_of_encode written
  have pieces := @Decoding.pieces_written schema options access _ _ _ written small
    options.recursionLimit.toNat
  exact fun e he => pieces.traces (Decoding.consumes_record _ _ _ _) 0 e (log_replay_subset he)

end Message

end Protowire
