import Protowire.Proofs.Read.Tag
import Protowire.Proofs.Reader
import Protowire.Reader.Program
import Protowire.Writer

set_option autoImplicit false

/-!
# Writing and reading back

Whatever is written one behind the other can be read one behind the other, by the reads that
belong to the writes. No read takes more or less than the bytes of its own write.
-/

namespace Protowire

namespace Write

/-- What a write appends; nothing for a misuse. -/
def appended (x : Write) : Bytes := x.bytes.toOption.getD []

theorem appended_of_ok {x : Write} {bytes : Bytes} (h : x.bytes = .ok bytes) :
    x.appended = bytes := by
  rw [appended, h]
  rfl

end Write

namespace Writer

def after (w : Writer) (xs : List Write) : Writer := xs.foldl (fun w x => (w.write x).2) w

theorem written_write (w : Writer) (x : Write) :
    (w.write x).2.written = w.written ++ x.appended := by
  unfold write Write.appended
  cases x.bytes with
  | ok bytes => rfl
  | error misuse => exact (List.append_nil _).symm

theorem written_after (w : Writer) (xs : List Write) :
    (w.after xs).written = w.written ++ xs.flatMap Write.appended := by
  induction xs generalizing w with
  | nil => exact (List.append_nil _).symm
  | cons x xs ih =>
    change ((w.write x).2.after xs).written = _
    rw [ih, written_write, List.flatMap_cons, List.append_assoc]

theorem ok_of_mem_writeAll {xs : List Write} (h : ∀ x ∈ xs, ∃ bytes, x.bytes = .ok bytes)
    (w : Writer) : ∀ out ∈ w.writeAll xs, ∃ bytes, out.1 = .ok bytes := by
  induction xs generalizing w with
  | nil => simp [writeAll]
  | cons x xs ih =>
    intro out mem
    rcases List.mem_cons.1 mem with rfl | mem
    · obtain ⟨bytes, written⟩ := h x (by simp)
      exact ⟨bytes, by rw [write, written]⟩
    · exact ih (fun y hy => h y (by simp [hy])) _ out mem

end Writer

namespace Reader

variable {α : Type} {r : Reader} {x : Read α} {bytes rest : Bytes} {a : α}

def after (r : Reader) (steps : List Step) : Reader :=
  steps.foldl (fun r s => (r.step s).reader) r

/-- Behind the bytes that a read takes, the rest is left. -/
theorem unread_cursor_of_append (unread : r.cursor.unread = bytes ++ rest) :
    ({ r with position := r.position + bytes.length } : Reader).cursor.unread = rest := by
  change (r.buffer.take r.stop).drop (r.position + bytes.length) = rest
  rw [← List.drop_drop]
  change r.cursor.unread.drop bytes.length = rest
  rw [unread, List.drop_left]

theorem runStep_of_takes (takes : x.Takes bytes a) (unread : r.cursor.unread = bytes ++ rest)
    (answer : α → Answer) : r.runStep x answer =
      ({ r with position := r.position + bytes.length } : Reader).report (.ok (answer a)) none := by
  rw [runStep, run_of_takes takes unread]
  rfl

end Reader

/-- A value as it is written and as it is read back. -/
inductive Item
  | tag (t : Tag)
  | varint (v : UInt64)
  | scalar (t : ScalarType) (s : Scalar)

namespace Item

/-- There is nothing to write for a scalar that the type does not carry. -/
def write? : Item → Option Write
  | tag t => some (.tag t.number.val t.wireType)
  | varint v => some (.varint v)
  | scalar t s => Write.scalar? t s

def read : Item → Reader.Step
  | tag _ => .tag
  | varint _ => .read .varint
  | scalar t _ => .read (.scalar t)

def answer : Item → Reader.Answer
  | tag t => .tag t
  | varint v => .scalar (.u64 v)
  | scalar _ s => .scalar s

variable {item : Item} {w : Write}

theorem make_number (t : Tag) : Tag.make t.number.val t.wireType = .ok t := by
  rw [Tag.make, FieldNumber.ofUInt32?_eq_some_iff.2 rfl]

theorem exists_bytes (h : item.write? = some w) : ∃ bytes, w.bytes = .ok bytes := by
  cases item with
  | tag t =>
    cases h
    exact ⟨_, by rw [Write.bytes, make_number]; rfl⟩
  | varint v =>
    cases h
    exact ⟨_, rfl⟩
  | scalar t s =>
    obtain ⟨p, -, rfl⟩ := Option.map_eq_some_iff.1 h
    exact ⟨_, rfl⟩

theorem takes_read_scalar {t : ScalarType} {s : Scalar} {p : Payload} (h : t.payload? s = some p)
    (small : ∀ content, p = .delimited content → content.length < 2 ^ 64) :
    t.read.Takes p.encode s :=
  t.recognizes_read.takes
    ⟨p, Payload.spells_encode_of_content small, ScalarType.interpret?_of_payload? h⟩

/-- The read that belongs to a write takes what the write appended. -/
theorem step_read {r : Reader} {rest : Bytes} (h : item.write? = some w)
    (small : ∀ content, w = .payload (.delimited content) → content.length < 2 ^ 64)
    (unread : r.cursor.unread = w.appended ++ rest) :
    r.step item.read =
      ({ r with position := r.position + w.appended.length } : Reader).report
        (.ok item.answer) none := by
  cases item with
  | tag t =>
    cases h
    have appended : (Write.tag t.number.val t.wireType).appended = t.encode :=
      Write.appended_of_ok (by rw [Write.bytes, make_number]; rfl)
    rw [appended] at unread ⊢
    have takes := Tag.recognizes_read.takes t.spells_encode
    rw [Item.read, Reader.step]
    exact Reader.runStep_of_takes takes unread _
  | varint v =>
    cases h
    have takes := Read.recognizes_varint.takes (Varint.spells_encode v)
    have value := Read.takes_iff.2 (Read.takes_iff.1 (Read.Answers.bind_pure takes Scalar.u64))
    rw [Item.read, Reader.step]
    exact Reader.runStep_of_takes value unread _
  | scalar t s =>
    obtain ⟨p, payload, rfl⟩ := Option.map_eq_some_iff.1 h
    have takes := takes_read_scalar payload fun content same => small content (same ▸ rfl)
    rw [Item.read, Reader.step]
    exact Reader.runStep_of_takes takes unread _

theorem mapM_write?_cons {items : List Item} {writes : List Write}
    (h : (item :: items).mapM write? = some writes) :
    ∃ w ws, item.write? = some w ∧ items.mapM write? = some ws ∧ writes = w :: ws := by
  rw [List.mapM_cons, Option.bind_eq_bind, Option.bind_eq_some_iff] at h
  obtain ⟨w, first, h⟩ := h
  rw [Option.bind_eq_bind, Option.bind_eq_some_iff] at h
  obtain ⟨ws, others, h⟩ := h
  cases h
  exact ⟨w, ws, first, others, rfl⟩

theorem exists_bytes_of_mem {items : List Item} {writes : List Write}
    (h : items.mapM write? = some writes) : ∀ w ∈ writes, ∃ bytes, w.bytes = .ok bytes := by
  induction items generalizing writes with
  | nil =>
    cases h
    simp
  | cons item items ih =>
    obtain ⟨w, ws, first, others, rfl⟩ := mapM_write?_cons h
    intro x mem
    rcases List.mem_cons.1 mem with rfl | mem
    · exact exists_bytes first
    · exact ih others x mem

/-- Wherever a reader has the written bytes in front of it. -/
theorem runAll_read {items : List Item} {writes : List Write} {r : Reader} {rest : Bytes}
    (h : items.mapM write? = some writes)
    (small : ∀ content, .payload (.delimited content) ∈ writes → content.length < 2 ^ 64)
    (unread : r.cursor.unread = writes.flatMap Write.appended ++ rest) :
    (r.runAll (items.map read)).map Reader.Report.result =
        items.map (fun item => .ok item.answer) ∧
      r.after (items.map read) =
        { r with position := r.position + (writes.flatMap Write.appended).length } := by
  induction items generalizing writes r with
  | nil =>
    cases h
    exact ⟨rfl, rfl⟩
  | cons item items ih =>
    obtain ⟨w, ws, first, others, rfl⟩ := mapM_write?_cons h
    rw [List.flatMap_cons, List.append_assoc] at unread
    have turn := step_read first (fun content same => small content (by simp [same])) unread
    obtain ⟨answers, final⟩ := ih others (fun content mem => small content (by simp [mem]))
      (Reader.unread_cursor_of_append unread)
    constructor
    · rw [List.map_cons, Reader.runAll, turn, List.map_cons, List.map_cons, Reader.report, answers]
    · change (r.step item.read).reader.after (items.map read) = _
      rw [turn, Reader.report, final, List.flatMap_cons, List.length_append, Nat.add_assoc]

end Item

/-- The reads that belong to a sequence of writes succeed on what the writes appended, whatever
stands behind it, and stop right in front of that. -/
theorem runAll_writeAll {items : List Item} {writes : List Write}
    (written : items.mapM Item.write? = some writes)
    (small : ∀ content, .payload (.delimited content) ∈ writes → content.length < 2 ^ 64)
    (trailing : Bytes) :
    let bytes := (Writer.after {} writes).written
    let r := Reader.ofBytes (bytes ++ trailing)
    (∀ out ∈ Writer.writeAll {} writes, ∃ appended, out.1 = .ok appended) ∧
    (r.runAll (items.map Item.read)).map Reader.Report.result =
      items.map (fun item => .ok item.answer) ∧
    r.after (items.map Item.read) = { r with position := bytes.length } := by
  intro bytes r
  have appended : bytes = writes.flatMap Write.appended := Writer.written_after {} writes
  have unread : r.cursor.unread = writes.flatMap Write.appended ++ trailing := by
    change (bytes ++ trailing).take (bytes ++ trailing).length = _
    rw [List.take_length, appended]
  obtain ⟨answers, final⟩ := Item.runAll_read written small unread
  refine ⟨Writer.ok_of_mem_writeAll (Item.exists_bytes_of_mem written) {}, answers, ?_⟩
  rw [final, ← appended]
  exact congrArg (fun position => ({ r with position := position } : Reader)) (Nat.zero_add _)

/-- Ten bytes of a negative number, the least number that zigzag takes, a tag of two bytes, a
character of two bytes and a zero, with a byte behind them that belongs to nobody. -/
theorem runAll_writeAll_extremes :
    let items : List Item := [.scalar .int32 (.i32 (-1)), .scalar .sint32 (.i32 (-2147483648)),
      .tag ⟨⟨127, by decide⟩, .delimited⟩, .scalar .string (.string "é"), .varint 0]
    let r := Reader.ofBytes ([255, 255, 255, 255, 255, 255, 255, 255, 255, 1,
      255, 255, 255, 255, 15, 250, 7, 2, 0xC3, 0xA9, 0] ++ [0xFF])
    (r.runAll (items.map Item.read)).map Reader.Report.result =
      items.map (fun item => .ok item.answer) ∧
    r.after (items.map Item.read) = { r with position := 21 } := by
  intro items r
  have written : items.mapM Item.write? = some [.payload (.varint 0xFFFFFFFFFFFFFFFF),
      .payload (.varint 0xFFFFFFFF), .tag 127 .delimited, .payload (.delimited [0xC3, 0xA9]),
      .varint 0] := by decide
  exact (runAll_writeAll written (by simp) [0xFF]).2

end Protowire
