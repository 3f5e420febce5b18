import Protowire.Decoding
import Protowire.Proofs.Message
import Protowire.Proofs.Read.Resync
import Protowire.Reader

set_option autoImplicit false

/-!
# Skipping and reading

A value is skipped by its wire type alone, and the reader ends up where reading the value would have
left it, also if the value turns out to be no good. So whoever goes on after an error goes on from
the same place.
-/

namespace Protowire

variable {α β γ : Type}

namespace Read

/-- `x` leaves each window where `y` leaves it, and fails as `y` does wherever that fails. It may
fail where `y` does not, over bytes that both have passed. -/
structure Tracks (x : Read α) (y : Read β) : Prop where
  rest : ∀ c, (x.run c).rest = (y.run c).rest
  failed : ∀ {c e}, (y.run c).result = .error e → (x.run c).result = .error e

namespace Tracks

variable {x : Read α} {y : Read β} {z : Read γ}

theorem trans (h : x.Tracks y) (h' : y.Tracks z) : x.Tracks z where
  rest c := (h.rest c).trans (h'.rest c)
  failed failed := h.failed (h'.failed failed)

/-- What is worked out of the bytes moves nothing. -/
theorem bind_ofExcept (x : Read α) (f : α → Except Error β) :
    (x >>= fun a => Read.ofExcept (f a)).Tracks x where
  rest := rest_bind_ofExcept x f
  failed failed := by rw [run_bind_of_error failed]

theorem bind_pure (x : Read α) (f : α → β) : (x >>= fun a => Pure.pure (f a)).Tracks x :=
  bind_ofExcept x fun a => .ok (f a)

theorem behind (x : Read α) {f : α → Read β} {g : α → Read γ} (h : ∀ a, (f a).Tracks (g a)) :
    (x >>= f).Tracks (x >>= g) where
  rest c := by
    cases value : (x.run c).result with
    | error e => rw [run_bind_of_error value, run_bind_of_error value]
    | ok a =>
      rw [run_bind_of_ok value, run_bind_of_ok value]
      exact (h a).rest _
  failed {c e} failed := by
    cases value : (x.run c).result with
    | error e' =>
      rw [run_bind_of_error value] at failed ⊢
      cases failed
      rfl
    | ok a =>
      rw [run_bind_of_ok value] at failed ⊢
      exact (h a).failed failed

/-- A window that is there is left at its end, whatever ran in it. -/
theorem window (n : Nat) (inner : Cursor → Logged α) : (Read.window n inner).Tracks (take n) where
  rest c := by
    by_cases fits : n ≤ c.remaining
    · simp only [take, Read.window, if_pos fits]
    · simp only [take, Read.window, if_neg fits]
  failed {c e} failed := by
    by_cases fits : n ≤ c.remaining
    · simp only [take, Read.window, if_pos fits] at failed
      cases failed
    · simp only [take, Read.window, if_neg fits] at failed ⊢
      cases failed
      rfl

theorem delimited (inner : Cursor → Logged α) : (Read.delimited inner).Tracks bytes :=
  behind varint fun size => window size.toNat inner

theorem discarded (x : Read α) : x.Tracks (discard x) := by
  have dropped : discard x = x >>= fun _ => Pure.pure () := map_eq_pure_bind _ x
  rw [dropped]
  refine ⟨fun c => ((bind_pure x _).rest c).symm, fun {c e} failed => ?_⟩
  cases value : (x.run c).result with
  | error e' =>
    rw [run_bind_of_error value] at failed
    cases failed
    rfl
  | ok a =>
    rw [run_bind_of_ok value] at failed
    cases failed

/-- Counting what is passed moves nothing, and fails at nothing else. -/
theorem count (h : x.Tracks y) :
    x.Tracks (do
      let start ← offset
      let _ ← y
      return (← offset) - start) where
  rest c := by
    rw [h.rest c]
    cases value : (y.run c).result with
    | error e => rw [run_count_of_error value]
    | ok a => rw [run_count_of_ok value]
  failed {c e} failed := by
    cases value : (y.run c).result with
    | error e' =>
      rw [run_count_of_error value] at failed
      cases failed
      exact h.failed value
    | ok a =>
      rw [run_count_of_ok value] at failed
      cases failed

end Tracks

/-- What is counted is how far the cursor went. -/
theorem offset_count {y : Read β} {c : Cursor} {n : Nat} :
    let counted : Read Nat := do
      let start ← offset
      let _ ← y
      return (← offset) - start
    (counted.run c).result = .ok n → (counted.run c).rest.offset = c.offset + n := by
  intro counted value
  cases passed : (y.run c).result with
  | error e =>
    rw [run_count_of_error passed] at value
    cases value
  | ok a =>
    obtain ⟨taken, -, moved⟩ := y.forward c
    rw [run_count_of_ok passed, moved] at value ⊢
    cases value
    exact congrArg (c.offset + ·) (Nat.add_sub_cancel_left c.offset taken).symm

end Read

theorem WireType.offset_skip {w : WireType} {c : Cursor} {n : Nat}
    (skipped : (w.skip.run c).result = .ok n) : (w.skip.run c).rest.offset = c.offset + n := by
  cases w <;> exact Read.offset_count skipped

theorem ScalarType.tracks_skip (t : ScalarType) : t.read.Tracks t.wireType.skip := by
  have varint (f : UInt64 → Scalar) :
      (do return f (← Read.varint) : Read Scalar).Tracks WireType.varint.skip :=
    ((Read.Tracks.bind_pure Read.varint f).trans (.discarded Read.varint)).count
  have fixed32 (f : UInt32 → Scalar) :
      (do return f (← Read.fixed32) : Read Scalar).Tracks WireType.fixed32.skip := by
    refine ((Read.Tracks.bind_pure Read.fixed32 f).trans ?_).count
    exact (Read.Tracks.bind_pure (Read.take 4) _).trans (.discarded _)
  have fixed64 (f : UInt64 → Scalar) :
      (do return f (← Read.fixed64) : Read Scalar).Tracks WireType.fixed64.skip := by
    refine ((Read.Tracks.bind_pure Read.fixed64 f).trans ?_).count
    exact (Read.Tracks.bind_pure (Read.take 8) _).trans (.discarded _)
  cases t
  case string =>
    refine ((Read.Tracks.bind_pure Read.string Scalar.string).trans ?_).count
    exact (Read.Tracks.bind_ofExcept Read.bytes _).trans (.discarded Read.bytes)
  case bytes => exact ((Read.Tracks.bind_pure Read.bytes _).trans (.discarded Read.bytes)).count
  case fixed32 | sfixed32 | float => exact fixed32 _
  case fixed64 | sfixed64 | double => exact fixed64 _
  all_goals exact varint _

/-- A message for which no level is left is refused in front of its length. Every other value is
read from one end to the other. -/
theorem Kind.tracks_skip (schema : Schema) (options : DecodeOptions) (access : Accessors)
    {levels : Nat} (k : Kind) (left : ∀ type, k = .message type → 0 < levels) :
    (k.read (Decoding.message schema options access levels)).Tracks k.wireType.skip := by
  cases k with
  | scalar t => exact (Read.Tracks.bind_pure t.read _).trans t.tracks_skip
  | message type =>
    obtain ⟨inner, rfl⟩ := Nat.exists_eq_add_one_of_ne_zero (Nat.ne_of_gt (left type rfl))
    refine (Read.Tracks.bind_pure (Decoding.message schema options access _ type) _).trans ?_
    exact ((Read.Tracks.delimited _).trans (.discarded Read.bytes)).count

theorem Read.Tracks.reader_run {x : Read α} {y : Read β} (h : x.Tracks y) (r : Reader) :
    (r.run x).2 = (r.run y).2 := by
  rw [Reader.run, Reader.run, h.rest]

namespace Reader

/-- Reading a value at `depth` against skipping it by its wire type. A message that lies too deep is
refused before anything of it is read; apart from that the two go the same way, and what cannot be
skipped cannot be read, for the same reason. -/
theorem run_read_tracks_skip (schema : Schema) (options : DecodeOptions) (access : Accessors)
    (depth : UInt32) (k : Kind) (r : Reader) :
    let levels := options.recursionLimit.toNat - depth.toNat
    let read := r.run (k.read (Decoding.message schema options access levels))
    let skip := r.run k.wireType.skip
    let tooDeep := (∃ type, k = .message type) ∧ options.recursionLimit ≤ depth
    (∀ v, read.1 = .ok v →
      ∃ n, skip.1 = .ok n ∧ skip.2 = read.2 ∧ read.2.position = r.position + n) ∧
    (∀ e, skip.1 = .error e → ∃ e', read.1 = .error e' ∧ (¬ tooDeep → e' = e)) ∧
    (¬ tooDeep → read.2 = skip.2) ∧
    (tooDeep → read = (.error (.recursionLimit options.recursionLimit), r)) := by
  intro levels read skip tooDeep
  have tracks (within : ¬ tooDeep) :
      (k.read (Decoding.message schema options access levels)).Tracks k.wireType.skip := by
    apply Kind.tracks_skip
    intro type message
    have above : ¬ options.recursionLimit ≤ depth := fun le => within ⟨⟨type, message⟩, le⟩
    rw [UInt32.le_iff_toNat_le] at above
    exact Nat.sub_pos_of_lt (Nat.lt_of_not_le above)
  have refused (deep : tooDeep) :
      read = (.error (.recursionLimit options.recursionLimit), r) := by
    obtain ⟨⟨type, message⟩, below⟩ := deep
    have none : levels = 0 := Nat.sub_eq_zero_of_le (UInt32.le_iff_toNat_le.1 below)
    simp only [read, message, none]
    rfl
  refine ⟨?succeeds, ?fails, fun within => (tracks within).reader_run r, refused⟩
  case succeeds =>
    intro v value
    have within : ¬ tooDeep := by
      intro deep
      rw [refused deep] at value
      cases value
    have same := (tracks within).reader_run r
    cases skipped : skip.1 with
    | error e =>
      have failed : read.1 = .error e := (tracks within).failed skipped
      rw [value] at failed
      cases failed
    | ok n =>
      refine ⟨n, rfl, same.symm, ?_⟩
      rw [same]
      exact WireType.offset_skip skipped
  case fails =>
    intro e failed
    by_cases deep : tooDeep
    · exact ⟨_, congrArg Prod.fst (refused deep), fun within => absurd deep within⟩
    · exact ⟨e, (tracks deep).failed failed, fun _ => rfl⟩

/-- A child with a name that is no text: its parent cannot be read, and is left where it would be
skipped to. -/
theorem run_read_tracks_skip_text :
    let r : Reader := ⟨[0x05, 0x1A, 0x03, 0x0A, 0x01, 0xFF, 0x07], 0, 7⟩
    let levels := DecodeOptions.strict.recursionLimit.toNat - (98 : UInt32).toNat
    let read := r.run ((Kind.message 0).read (Decoding.message Sample.schema .strict .full levels))
    let skip := r.run (Kind.message 0).wireType.skip
    read.1 = .error (.utf8 ⟨0, some 1⟩) ∧ skip.1 = .ok 6 ∧ read.2 = skip.2 ∧
      read.2.position = 6 := by
  intro r levels read skip
  have failed : (fun _ => ()) <$> read.1 = .error (.utf8 ⟨0, some 1⟩) := by decide +kernel
  have within : ¬ ((∃ type, Kind.message 0 = .message type) ∧
      DecodeOptions.strict.recursionLimit ≤ 98) := fun deep => absurd deep.2 (by decide)
  have same := (run_read_tracks_skip Sample.schema .strict .full 98 (.message 0) r).2.2.1 within
  refine ⟨Result.map_eq_error_iff.1 failed, by decide +kernel, same, ?_⟩
  exact (congrArg Reader.position same).trans (by decide +kernel)

end Reader

end Protowire
