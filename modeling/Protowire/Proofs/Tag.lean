import Protowire.Proofs.Read.Tag
import Protowire.Proofs.Read.Varint

set_option autoImplicit false

/-!
# Tags in any bytes

The numbers that say a tag are those that tags have, all of their 64 bits counted, and each of them
says one tag. So what reading a tag does is told by the varint that the window begins with, if it
begins with one.
-/

namespace Protowire

namespace Tag

/-- Whatever is a tag can be made by a caller. -/
theorem exists_make (t : Tag) : ∃ number w, make number w = .ok t := by
  have valid : FieldNumber.ofUInt32? t.number.val = some t.number :=
    FieldNumber.ofUInt32?_eq_some_iff.2 rfl
  refine ⟨t.number.val, t.wireType, ?_⟩
  unfold make
  rw [valid]

theorem toUInt64_raw_eq_iff {raw : UInt64} {t : Tag} :
    t.raw.toUInt64 = raw ↔ raw.toNat = t.code := by
  rw [← UInt64.toNat_inj, UInt32.toNat_toUInt64, toNat_raw, eq_comm]

theorem ofRaw_eq_ok_iff {raw : UInt64} {offset : Nat} {t : Tag} :
    ofRaw raw offset = .ok t ↔ t.raw.toUInt64 = raw := by
  rw [toUInt64_raw_eq_iff, ← ofRaw?_eq_some_iff]
  unfold ofRaw
  cases ofRaw? raw <;> simp

/-- What is the number of no tag is refused, with its place. -/
theorem ofRaw_of_ne {raw : UInt64} (offset : Nat) (other : ∀ t : Tag, t.raw.toUInt64 ≠ raw) :
    ofRaw raw offset = .error (.malformedTag offset raw) := by
  cases found : ofRaw? raw with
  | some t => exact absurd (toUInt64_raw_eq_iff.2 (ofRaw?_eq_some_iff.1 found)) (other t)
  | none => rw [ofRaw, found]

/-- What reading a tag gives for the bytes of a window that begins at `start`, and how many of them
it takes. -/
inductive Reads (start : Nat) : Bytes → Except Error Tag → Nat → Prop
  | tag {bytes : Bytes} {t : Tag} (spelled : Varint.Spells bytes t.raw.toUInt64) (rest : Bytes) :
    Reads start (bytes ++ rest) (.ok t) bytes.length
  | malformed {bytes : Bytes} {raw : UInt64} (spelled : Varint.Spells bytes raw)
      (other : ∀ t : Tag, t.raw.toUInt64 ≠ raw) (rest : Bytes) :
    Reads start (bytes ++ rest) (.error (.malformedTag start raw)) bytes.length
  | overlong {bytes : Bytes} (length : bytes.length = 10) (high : ∀ b ∈ bytes, 0x80 ≤ b)
      (rest : Bytes) :
    Reads start (bytes ++ rest) (.error (.malformedTag start 0xFFFFFFFFFFFFFFFF)) 10
  | cut {window : Bytes} (short : window.length < 10) (high : ∀ b ∈ window, 0x80 ≤ b) :
    Reads start window (.error (.underrun 1 0)) window.length

/-- Every window begins with a varint, with ten bytes that ask for more, or ends before that. -/
theorem exists_reads (start : Nat) (window : Bytes) :
    ∃ result taken, Reads start window result taken := by
  have split (n : Nat) : window = window.take n ++ window.drop n :=
    (List.take_append_drop n window).symm
  by_cases low : ∃ b ∈ window.take 10, b < 0x80
  · obtain ⟨i, b, short, last, low, high⟩ := Varint.exists_first_low low
    have spelled : Varint.Spells (window.take (i + 1)) _ :=
      ⟨Varint.complete_take short last low high, rfl⟩
    generalize UInt64.ofNat (Varint.value (window.take (i + 1))) = raw at spelled
    rw [split (i + 1)]
    by_cases valid : ∃ t : Tag, t.raw.toUInt64 = raw
    · obtain ⟨t, rfl⟩ := valid
      exact ⟨_, _, .tag spelled _⟩
    · exact ⟨_, _, .malformed spelled (not_exists.1 valid) _⟩
  · have high : ∀ b ∈ window.take 10, 0x80 ≤ b := by
      simpa only [← UInt8.not_lt, not_exists, not_and] using low
    by_cases whole : 10 ≤ window.length
    · rw [split 10]
      exact ⟨_, _, .overlong (List.length_take_of_le whole) high _⟩
    · have short := Nat.lt_of_not_le whole
      rw [List.take_of_length_le (Nat.le_of_lt short)] at high
      exact ⟨_, _, .cut short high⟩

variable {c : Cursor} {result : Except Error Tag} {taken : Nat}

/-- A tag is read as the varint is, and then its number is looked at. -/
theorem result_read_of_ok {raw : UInt64} (h : (Read.varint.run c).result = .ok raw) :
    (read.run c).result = ofRaw raw c.offset := by
  have mapped (f : Error → Error) : ((Read.varint.mapError f).run c).result = .ok raw :=
    congrArg (Except.mapError f) h
  change ((Read.varint.mapError _ >>= fun raw =>
    Read.ofExcept (ofRaw raw c.offset)).run c).result = _
  rw [Read.run_bind_of_ok (mapped _)]
  rfl

theorem result_read_of_error {e : Error} (h : (Read.varint.run c).result = .error e) :
    (read.run c).result =
      .error (if e = .varint then .malformedTag c.offset 0xFFFFFFFFFFFFFFFF else e) := by
  refine (Read.result_mapError_bind_of_error h).trans ?_
  cases e <;> rfl

theorem read_of_spells {bytes rest : Bytes} {raw : UInt64} (spelled : Varint.Spells bytes raw)
    (unread : c.unread = bytes ++ rest) :
    (read.run c).result = ofRaw raw c.offset ∧ (read.run c).rest = c.drop bytes.length := by
  obtain ⟨offset, window⟩ := c
  obtain rfl : window = bytes ++ rest := unread
  have takes := Read.recognizes_varint.takes spelled
  obtain ⟨value, after⟩ := Read.takes_iff.1 takes offset rest
  refine ⟨result_read_of_ok value, ?_⟩
  rw [rest_read, after, Cursor.drop, List.drop_left]

theorem read_of_high (high : ∀ b ∈ c.unread.take 10, 0x80 ≤ b) :
    (read.run c).result = .error (if 10 ≤ c.remaining
      then .malformedTag c.offset 0xFFFFFFFFFFFFFFFF else .underrun 1 0) ∧
      (read.run c).rest = c.drop (min 10 c.remaining) := by
  have stops : Read.varint.run c = _ := Read.run_groups_of_high high
  have failed := result_read_of_error (congrArg (fun reading => reading.result) stops)
  rw [rest_read, stops, failed]
  refine ⟨?_, rfl⟩
  by_cases whole : 10 ≤ c.remaining
  · rw [if_pos whole, if_pos whole, if_pos rfl]
  · rw [if_neg whole, if_neg whole, if_neg nofun]

theorem read_of_reads (reads : Reads c.offset c.unread result taken) :
    (read.run c).result = result ∧ (read.run c).rest = c.drop taken := by
  generalize unread : c.unread = window at reads
  have length : c.remaining = window.length := congrArg List.length unread
  cases reads with
  | tag spelled rest =>
    obtain ⟨value, after⟩ := read_of_spells spelled unread
    exact ⟨value.trans (ofRaw_eq_ok_iff.2 rfl), after⟩
  | malformed spelled other rest =>
    obtain ⟨value, after⟩ := read_of_spells spelled unread
    exact ⟨value.trans (ofRaw_of_ne c.offset other), after⟩
  | @overlong bytes whole high rest =>
    have front : c.unread.take 10 = bytes := by rw [unread, ← whole, List.take_left]
    have enough : 10 ≤ c.remaining := by
      rw [length, List.length_append, whole]
      exact Nat.le_add_right 10 _
    have failed := read_of_high (front ▸ high)
    rwa [if_pos enough, Nat.min_eq_left enough] at failed
  | cut short high =>
    have few : ¬ 10 ≤ c.remaining := Nat.not_le.2 (length ▸ short)
    have front : c.unread.take 10 = window := by
      rw [unread, List.take_of_length_le (Nat.le_of_lt short)]
    have failed := read_of_high (front ▸ high)
    rwa [if_neg few, Nat.min_eq_right (Nat.le_of_not_le few), length] at failed

/-- There is only one way to read a window. -/
theorem reads_of_read (h : (read.run c).result = result) :
    ∃ taken, Reads c.offset c.unread result taken := by
  obtain ⟨result', taken, reads⟩ := exists_reads c.offset c.unread
  obtain rfl : result' = result := (read_of_reads reads).1.symm.trans h
  exact ⟨taken, reads⟩

end Tag

namespace Reader

variable {r : Reader} {result : Except Error Tag} {taken : Nat}

theorem run_tag_of_reads (reads : Tag.Reads r.position r.cursor.unread result taken) :
    r.run Tag.read = (result, { r with position := r.position + taken }) := by
  obtain ⟨value, after⟩ := Tag.read_of_reads (c := r.cursor) reads
  rw [run, value, after]
  rfl

theorem run_tag_eq_iff :
    r.run Tag.read = (result, { r with position := r.position + taken }) ↔
      Tag.Reads r.position r.cursor.unread result taken := by
  refine ⟨fun ran => ?_, run_tag_of_reads⟩
  obtain ⟨taken', reads⟩ := Tag.reads_of_read (congrArg Prod.fst ran)
  rw [run_tag_of_reads reads, Prod.mk.injEq, Reader.mk.injEq] at ran
  obtain ⟨-, -, position, -⟩ := ran
  obtain rfl : taken' = taken := Nat.add_left_cancel position
  exact reads

/-- Nothing but the end of the window inside the varint makes a tag run out of bytes. -/
theorem run_tag_underrun_iff :
    (∃ needed remaining, (r.run Tag.read).1 = .error (.underrun needed remaining)) ↔
      r.cursor.unread.length < 10 ∧ ∀ b ∈ r.cursor.unread, 0x80 ≤ b := by
  constructor
  · rintro ⟨needed, remaining, failed⟩
    obtain ⟨taken, reads⟩ := Tag.reads_of_read failed
    generalize r.cursor.unread = window at reads
    cases reads with
    | cut short high => exact ⟨short, high⟩
  · rintro ⟨short, high⟩
    exact ⟨1, 0, congrArg Prod.fst (run_tag_of_reads (.cut short high))⟩

end Reader

/-- A number is taken for a tag if it is what a tag that can be made has for its raw value, and what
is no such number is refused. In a window of any content this is done to the number of the varint
at its front, and the varint is read either way. -/
theorem Tag.ofRaw_inverse_raw :
    (∀ raw offset t, Tag.ofRaw raw offset = .ok t ↔
      (∃ number w, Tag.make number w = .ok t) ∧ t.raw.toUInt64 = raw) ∧
    (∀ raw offset, (∀ t, Tag.ofRaw raw offset ≠ .ok t) →
      Tag.ofRaw raw offset = .error (.malformedTag offset raw)) ∧
    ∀ r : Reader,
      (∃ result taken, Tag.Reads r.position r.cursor.unread result taken) ∧
      (∀ result taken,
        r.run Tag.read = (result, { r with position := r.position + taken }) ↔
          Tag.Reads r.position r.cursor.unread result taken) ∧
      ((∃ needed remaining, (r.run Tag.read).1 = .error (.underrun needed remaining)) ↔
        r.cursor.unread.length < 10 ∧ ∀ b ∈ r.cursor.unread, 0x80 ≤ b) := by
  refine ⟨fun raw offset t => ?valid, fun raw offset refused => ?invalid, fun r =>
    ⟨Tag.exists_reads _ _, fun result taken => Reader.run_tag_eq_iff, Reader.run_tag_underrun_iff⟩⟩
  case valid =>
    rw [Tag.ofRaw_eq_ok_iff]
    exact ⟨fun value => ⟨t.exists_make, value⟩, fun made => made.2⟩
  case invalid =>
    refine Tag.ofRaw_of_ne offset fun t value => refused t ?_
    exact Tag.ofRaw_eq_ok_iff.2 value

/-- Field 0 in a varint of two bytes, in front of a tag. -/
example : (⟨[0x80, 0x00, 0x08], 0, 3⟩ : Reader).run Tag.read =
    (.error (.malformedTag 0 0), ⟨[0x80, 0x00, 0x08], 2, 3⟩) := by decide +kernel

end Protowire
