import Protowire.Proofs.Decoding.Taken
import Protowire.Proofs.Read.Resync

set_option autoImplicit false

/-!
# Bytes that begin no tag

Where tags are looked for, a byte that is not one by itself and does not ask for another byte is
stepped over alone. So a run of such bytes costs itself and nothing of what stands behind it.
-/

namespace Protowire

theorem Varint.spells_byte {b : UInt8} (low : b < 0x80) : Spells [b] b.toUInt64 := by
  refine ⟨⟨[], b, rfl, by simp, by simp, low⟩, ?_⟩
  rw [UInt8.lt_iff_toNat_lt] at low
  apply UInt64.toNat_inj.1
  simp [value] at low ⊢
  omega

theorem Read.run_varint_of_lt {c : Cursor} {b : UInt8} {after : Bytes} (low : b < 0x80)
    (unread : c.unread = b :: after) :
    varint.run c = ⟨⟨.ok b.toUInt64, []⟩, c.drop 1⟩ :=
  run_groups_low 9 unread low

namespace Tag

/-- The byte is a varint by itself, and the number it holds has no field number or no wire type. -/
def Garbage (b : UInt8) : Prop := b < 0x80 ∧ (b.toNat / 8 = 0 ∨ b.toNat % 8 ∈ [3, 4, 6, 7])

instance (b : UInt8) : Decidable (Garbage b) :=
  inferInstanceAs (Decidable (_ ∧ _))

variable {b : UInt8}

theorem toNat_ne_code_of_garbage (garbage : Garbage b) (t : Tag) : b.toNat ≠ t.code := by
  obtain ⟨-, stray⟩ := garbage
  have number : 1 ≤ t.number.val.toNat := UInt32.le_iff_toNat_le.1 t.number.inRange.1
  simp only [List.mem_cons, List.not_mem_nil, or_false] at stray
  unfold code
  cases t.wireType <;> simp only [WireType.code, UInt8.toNat_ofNat] <;> omega

/-- A field number and a wire type make a tag. -/
theorem exists_code_eq {n : Nat} (positive : n / 8 ≠ 0) (bounded : n / 8 ≤ 127)
    (wire : n % 8 ∉ [3, 4, 6, 7]) : ∃ t : Tag, t.code = n := by
  simp only [List.mem_cons, List.not_mem_nil, or_false, not_or] at wire
  obtain ⟨w, same⟩ : ∃ w : WireType, w.code.toNat = n % 8 := by
    have known : n % 8 = 0 ∨ n % 8 = 1 ∨ n % 8 = 2 ∨ n % 8 = 5 := by omega
    rcases known with h | h | h | h
    · exact ⟨.varint, h.symm⟩
    · exact ⟨.fixed64, h.symm⟩
    · exact ⟨.delimited, h.symm⟩
    · exact ⟨.fixed32, h.symm⟩
  have number : (UInt32.ofNat (n / 8)).toNat = n / 8 := by
    rw [UInt32.toNat_ofNat', Nat.mod_eq_of_lt (by omega)]
  have inRange : 1 ≤ UInt32.ofNat (n / 8) ∧ UInt32.ofNat (n / 8) ≤ 127 := by
    rw [UInt32.le_iff_toNat_le, UInt32.le_iff_toNat_le, number]
    simp only [UInt32.reduceToNat]
    omega
  refine ⟨⟨⟨_, inRange⟩, w⟩, ?_⟩
  rw [code, same, number]
  omega

/-- These are the bytes below 0x80 that are no tag by themselves. -/
theorem garbage_iff : Garbage b ↔ b < 0x80 ∧ ∀ t, ¬ Spells [b] t := by
  constructor
  · intro garbage
    refine ⟨garbage.1, ?_⟩
    rintro t ⟨v, ⟨-, rfl⟩, same⟩
    have low := UInt8.lt_iff_toNat_lt.1 garbage.1
    apply toNat_ne_code_of_garbage garbage t
    rw [← same]
    simp [Varint.value] at low ⊢
    omega
  · rintro ⟨low, unspelled⟩
    have bound : b.toNat < 128 := UInt8.lt_iff_toNat_lt.1 low
    refine ⟨low, Classical.byContradiction fun tag => ?_⟩
    obtain ⟨positive, wire⟩ := not_or.1 tag
    obtain ⟨t, same⟩ := exists_code_eq positive (by omega) wire
    exact unspelled t ⟨_, Varint.spells_byte low, by rw [UInt8.toNat_toUInt64, same]⟩

theorem run_read_garbage {c : Cursor} {after : Bytes} (garbage : Garbage b)
    (unread : c.unread = b :: after) :
    read.run c = ⟨⟨.error (.malformedTag c.offset b.toUInt64), []⟩, c.drop 1⟩ := by
  have none : ofRaw? b.toUInt64 = none := by
    rw [Option.eq_none_iff_forall_ne_some]
    intro t found
    have spelled : Spells [b] t :=
      ⟨_, Varint.spells_byte garbage.1, ofRaw?_eq_some_iff.1 found⟩
    exact (garbage_iff.1 garbage).2 t spelled
  have taken (change : Error → Error) :
      (Read.varint.mapError change).run c = ⟨⟨.ok b.toUInt64, []⟩, c.drop 1⟩ := by
    simp only [Read.mapError, Read.run_varint_of_lt garbage.1 unread]
    rfl
  change (Read.varint.mapError _ >>= fun raw => Read.ofExcept (ofRaw raw c.offset)).run c = _
  rw [Read.run_bind_of_ok (congrArg (fun r => r.result) (taken _)), taken, ofRaw, none]
  rfl

theorem next_garbage {c : Cursor} {after : Bytes} (garbage : Garbage b)
    (unread : c.unread = b :: after) :
    (next .resync).run c = ⟨⟨.ok none, [.malformedTag b.toUInt64 c.offset]⟩, c.drop 1⟩ := by
  have read := run_read_garbage garbage unread
  rw [next_resync_of_malformed (congrArg (fun r => r.result) read), read]
  rfl

/-- The warnings that a run of garbage leaves, one for each of its bytes. -/
def warnings (start : Nat) (g : Bytes) : List Event :=
  g.mapIdx fun i b => .malformedTag b.toUInt64 (start + i)

theorem warnings_cons (start : Nat) (b : UInt8) (g : Bytes) :
    warnings start (b :: g) = .malformedTag b.toUInt64 start :: warnings (start + 1) g := by
  rw [warnings, warnings, List.mapIdx_cons]
  congr 2
  funext i x
  rw [Nat.add_comm i 1, Nat.add_assoc]

theorem map_relocate_warnings (distance start : Nat) (g : Bytes) :
    (warnings start g).map (Event.relocate (.shift distance)) = warnings (start + distance) g := by
  induction g generalizing start with
  | nil => rfl
  | cons b g ih =>
    rw [warnings_cons, warnings_cons, List.map_cons, ih, Nat.add_right_comm]
    rfl

end Tag

/-- An error that mentions no place is the same in every place. -/
theorem Error.relocate_shift_of_not_isMalformedTag {e : Error} (h : ¬ e.IsMalformedTag)
    (distance : Nat) : e.relocate (.shift distance) = e := by
  cases e with
  | malformedTag offset raw => exact absurd ⟨offset, raw, rfl⟩ h
  | _ => rfl

def Event.isMalformedTag : Event → Bool
  | malformedTag .. => true
  | _ => false

namespace Event

theorem isMalformedTag_relocate (r : Relocation) (e : Event) :
    (e.relocate r).isMalformedTag = e.isMalformedTag := by
  cases e <;> rfl

theorem countP_map_relocate (r : Relocation) (log : List Event) :
    (log.map (relocate r)).countP isMalformedTag = log.countP isMalformedTag := by
  rw [List.countP_map]
  exact congrArg (fun p => log.countP p) (funext (isMalformedTag_relocate r))

theorem countP_warnings (start : Nat) (g : Bytes) :
    (Tag.warnings start g).countP isMalformedTag = g.length := by
  induction g generalizing start with
  | nil => rfl
  | cons b g ih => rw [Tag.warnings_cons, List.countP_cons_of_pos rfl, ih, List.length_cons]

theorem map_relocate_shift_comm (i j : Nat) (log : List Event) :
    (log.map (relocate (.shift i))).map (relocate (.shift j)) =
      (log.map (relocate (.shift j))).map (relocate (.shift i)) := by
  rw [List.map_map, List.map_map]
  refine List.map_congr_left fun e _ => ?_
  cases e with
  | malformedTag raw offset =>
    simp only [Function.comp, relocate, Relocation.shift, Nat.add_assoc, Nat.add_comm i j]
  | _ => rfl

end Event

namespace Message

open Tag

variable {schema : Schema} {limit : UInt32} {access : Accessors} {table : FieldTable} {m : Message}
  {b : UInt8} {g : Bytes}

/-- A byte of garbage is stepped over. -/
theorem merge_resync_byte (garbage : Garbage b) :
    m.merge schema ⟨.resync, limit⟩ access table [b] =
      ⟨⟨m, .ok ()⟩, [.malformedTag b.toUInt64 0]⟩ := by
  let nested := Decoding.message schema ⟨.resync, limit⟩ access limit.toNat
  have next := next_garbage (c := .ofBytes [b]) garbage rfl
  have stepped : (Decoding.record schema .resync nested table).run (.ofBytes [b]) =
      ⟨⟨.ok none, [.malformedTag b.toUInt64 0]⟩, ⟨1, []⟩⟩ := by
    rw [Decoding.record, Read.run_bind_of_ok (congrArg (fun r => r.result) next), next]
    rfl
  have consumes := Decoding.consumes_record schema .resync nested table
  have turn := @Read.untilEnd_of_ok _ _ consumes _ _ (List.cons_ne_nil b [])
    (congrArg (fun r => r.result) stepped)
  have ends := @Read.untilEnd_of_nil _ _ consumes ⟨1, []⟩ rfl
  rw [stepped, ends] at turn
  rw [merge, Decoding.transcript, Decoding.records, turn]
  rfl

theorem merge_resync_run (garbage : ∀ b ∈ g, Garbage b) :
    m.merge schema ⟨.resync, limit⟩ access table g = ⟨⟨m, .ok ()⟩, warnings 0 g⟩ := by
  induction g with
  | nil => exact merge_nil access table
  | cons b g ih =>
    obtain ⟨first, others⟩ := List.forall_mem_cons.1 garbage
    have front : m.merge schema ⟨.resync, limit⟩ access table [b] = _ := merge_resync_byte first
    have later := merge_behind front g
    rw [ih others, Decoded.relocate, map_relocate_warnings] at later
    rw [warnings_cons]
    exact later

/-- Where malformed tags are rejected, the first byte of garbage is where decoding ends. -/
theorem merge_reject_byte (garbage : Garbage b) (rest : Bytes) :
    m.merge schema ⟨.reject, limit⟩ access table (b :: rest) =
      ⟨⟨m, .error (.malformedTag 0 b.toUInt64)⟩, []⟩ := by
  let nested := Decoding.message schema ⟨.reject, limit⟩ access limit.toNat
  have read := run_read_garbage (c := .ofBytes (b :: rest)) garbage rfl
  have next := @next_of_error _ .reject _ (congrArg (fun r => r.result) read)
    (fun resync => by cases resync)
  rw [read] at next
  have failed : (Decoding.record schema .reject nested table).run (.ofBytes (b :: rest)) =
      ⟨⟨.error (.malformedTag 0 b.toUInt64), []⟩, ⟨1, rest⟩⟩ := by
    rw [Decoding.record, Read.run_bind_of_error (congrArg (fun r => r.result) next), next]
    rfl
  have ends := @Read.untilEnd_of_error _ _ (Decoding.consumes_record schema .reject nested table) _
    _ (List.cons_ne_nil b rest) (congrArg (fun r => r.result) failed)
  rw [failed] at ends
  rw [merge, Decoding.transcript, Decoding.records, ends]
  rfl

theorem not_isMalformedTag_of_merge_resync {bytes : Bytes} {e : Error}
    (failed : (m.merge schema ⟨.resync, limit⟩ access table bytes).result = .error e) :
    ¬ e.IsMalformedTag := by
  have payload : ∀ e : Error, e.OfPayload → ¬ e.IsMalformedTag := fun _ h => h.not_isMalformedTag
  have records : (Decoding.record schema .resync
      (Decoding.message schema ⟨.resync, limit⟩ access limit.toNat) table).FailsWith fun e =>
        ¬ e.IsMalformedTag :=
    Decoding.failsWith_record payload Tag.failsWith_next_resync
      (Decoding.failsWith_message_resync schema limit access limit.toNat) table
  exact failsWith_replay records (fun _ h => h.not_isMalformedTag) failed

theorem result_relocate_of_merge_resync (bytes : Bytes) (distance : Nat) :
    ((m.merge schema ⟨.resync, limit⟩ access table bytes).relocate (.shift distance)).result =
      (m.merge schema ⟨.resync, limit⟩ access table bytes).result := by
  rw [Decoded.result_relocate]
  cases h : (m.merge schema ⟨.resync, limit⟩ access table bytes).result with
  | ok _ => rfl
  | error e =>
    have placeless := not_isMalformedTag_of_merge_resync h
    exact congrArg _ (Error.relocate_shift_of_not_isMalformedTag placeless distance)

/-- A run of garbage between two inputs. Where malformed tags are stepped over, it makes no
difference but for one warning for each of its bytes, at the place of the byte, and that what is
logged behind it is moved. Where they are rejected, its first byte ends decoding. -/
theorem merge_garbage (schema : Schema) (limit : UInt32) (access : Accessors) (table : FieldTable)
    (m : Message) {a : Bytes}
    (done : (m.merge schema ⟨.resync, limit⟩ access table a).result = .ok ()) {g : Bytes}
    (nonempty : g ≠ []) (garbage : ∀ x ∈ g, Garbage x) (b : Bytes) :
    let lenient (bytes : Bytes) := m.merge schema ⟨.resync, limit⟩ access table bytes
    let strict (bytes : Bytes) := m.merge schema ⟨.reject, limit⟩ access table bytes
    let within := lenient (a ++ g ++ b)
    let without := lenient (a ++ b)
    within.result = without.result ∧ within.message = without.message ∧
      (∀ offset raw, within.result ≠ .error (.malformedTag offset raw)) ∧
      (∃ behind, without.log = (lenient a).log ++ behind ∧
        within.log = (lenient a).log ++ warnings a.length g ++
          behind.map (Event.relocate (.shift g.length))) ∧
      within.log.countP Event.isMalformedTag =
        without.log.countP Event.isMalformedTag + g.length ∧
      ((strict a).result = .ok () →
        (strict (a ++ g ++ b)).result =
          .error (.malformedTag a.length (g.head nonempty).toUInt64) ∧
        (strict (a ++ g ++ b)).message = (strict a).message) := by
  intro lenient strict within without
  let first := lenient a
  let second := first.message.merge schema ⟨.resync, limit⟩ access table b
  have front : lenient a = ⟨⟨first.message, .ok ()⟩, first.log⟩ := by rw [← done]
  have outer : without = (second.relocate (.shift a.length)).after first.log :=
    merge_behind front b
  have run : first.message.merge schema ⟨.resync, limit⟩ access table g = _ :=
    merge_resync_run garbage
  have inner : within = (((second.relocate (.shift g.length)).after (warnings 0 g)).relocate
      (.shift a.length)).after first.log := by
    rw [← merge_behind run b, ← merge_behind front (g ++ b), ← List.append_assoc]
  have same : within.result = without.result := by
    have unmoved : (second.relocate (.shift g.length)).result = second.result :=
      result_relocate_of_merge_resync b g.length
    rw [inner, outer, Decoded.result_after, Decoded.result_relocate, Decoded.result_after, unmoved]
    rfl
  let behind := second.log.map (Event.relocate (.shift a.length))
  have plain : without.log = first.log ++ behind := by
    rw [outer]
    rfl
  have warned : within.log = first.log ++ warnings a.length g ++
      behind.map (Event.relocate (.shift g.length)) := by
    have moved := map_relocate_warnings a.length 0 g
    rw [Nat.zero_add] at moved
    rw [inner, Decoded.relocate_after, moved, Decoded.log_after, Decoded.log_after,
      ← List.append_assoc]
    exact congrArg _ (Event.map_relocate_shift_comm _ _ _)
  refine ⟨same, ?message, ?never, ⟨behind, plain, warned⟩, ?count, ?rejected⟩
  case message =>
    rw [inner, outer]
    rfl
  case never =>
    intro offset raw failed
    exact not_isMalformedTag_of_merge_resync failed ⟨offset, raw, rfl⟩
  case count =>
    rw [warned, plain]
    simp only [List.countP_append, Event.countP_map_relocate, Event.countP_warnings]
    omega
  case rejected =>
    intro accepted
    obtain ⟨x, rest, rfl⟩ := List.exists_cons_of_ne_nil nonempty
    have begins : Garbage x := garbage x List.mem_cons_self
    have start : strict a = ⟨⟨(strict a).message, .ok ()⟩, (strict a).log⟩ := by rw [← accepted]
    have place : a ++ x :: rest ++ b = a ++ x :: (rest ++ b) := List.append_assoc ..
    have ends := merge_behind start (x :: (rest ++ b))
    rw [merge_reject_byte begins, ← place] at ends
    have whole : strict (a ++ x :: rest ++ b) = _ := ends
    rw [whole]
    refine ⟨?_, rfl⟩
    rw [Decoded.result_after, Decoded.result_relocate, List.head_cons, Result.mapError_error,
      Error.relocate, Relocation.shift, Nat.zero_add]

/-- Behind a name, a field number zero and two wire types that there are not; behind them weights
and a tag that is cut off. -/
theorem merge_garbage_name :
    let a : Bytes := [0x0A, 0x01, 0x6E]
    let g : Bytes := [0x00, 0x0B, 0x7F]
    let b : Bytes := [0x12, 0x02, 0x01, 0x02, 0x80]
    let lenient (bytes : Bytes) :=
      Sample.leaf.merge Sample.schema ⟨.resync, 1⟩ .full Sample.table bytes
    let strict (bytes : Bytes) :=
      Sample.leaf.merge Sample.schema ⟨.reject, 1⟩ .full Sample.table bytes
    (lenient a).result = .ok () ∧ (∀ x ∈ g, Garbage x) ∧ (strict a).result = .ok () ∧
      let within := lenient (a ++ g ++ b)
      let without := lenient (a ++ b)
      within.result = without.result ∧ within.message = without.message ∧
        (∀ offset raw, within.result ≠ .error (.malformedTag offset raw)) ∧
        (∃ behind, without.log = (lenient a).log ++ behind ∧
          within.log = (lenient a).log ++ warnings 3 g ++
            behind.map (Event.relocate (.shift g.length))) ∧
        within.log.countP Event.isMalformedTag =
          without.log.countP Event.isMalformedTag + g.length ∧
        ((strict a).result = .ok () →
          (strict (a ++ g ++ b)).result = .error (.malformedTag 3 0) ∧
          (strict (a ++ g ++ b)).message = (strict a).message) := by
  intro a g b lenient strict
  have done : (lenient a).result = .ok () := by decide +kernel
  have garbage : ∀ x ∈ g, Garbage x := by decide +kernel
  have accepted : (strict a).result = .ok () := by decide +kernel
  exact ⟨done, garbage, accepted,
    merge_garbage Sample.schema 1 .full Sample.table Sample.leaf done (List.cons_ne_nil _ _)
      garbage b⟩

end Message

end Protowire
