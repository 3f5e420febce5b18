import Protowire.Proofs.Decoding.Agreement
import Protowire.Proofs.Decoding.Finding
import Protowire.Proofs.Decoding.Logs
import Protowire.Proofs.Decoding.Policy
import Protowire.Proofs.RoundTrip.Quiet

set_option autoImplicit false

/-!
# Nothing is passed over in silence

The log of a decoding that succeeds accounts for the bytes: it tells of all that is found in them,
in wire order and at every depth, and of nothing else.
-/

namespace Protowire

variable {schema : Schema} {options : DecodeOptions} {access : Accessors} {type : Nat}
  {bytes : Bytes} {found : List Finding}

/-- The records of a whole input. -/
theorem Decoding.tells_transcript_iff :
    (transcript schema options .full (schema.table type) bytes).values.Tells found ↔
      Findings.Input schema options (schema.table type) bytes found :=
  tells_records_iff (tells_message schema options options.recursionLimit.toNat)
    (schema.built_table type) (.ofBytes bytes) found

namespace Message

variable {m : Message}

/-- The findings of an input that is decoded are those that its log shows. -/
theorem input_iff_shows
    (done : (m.merge schema options access (schema.table type) bytes).result = .ok ()) :
    Findings.Input schema options (schema.table type) bytes found ↔
      Shows (m.merge schema options access (schema.table type) bytes).log found := by
  have full := merge_full_of_ok done
  rw [← full] at done ⊢
  obtain ⟨whole, log⟩ := replay_of_ok done
  rw [← Decoding.tells_transcript_iff, Logged.Tells, and_iff_right whole, log]
  exact Iff.rfl

/-- Where nothing malformed is found, strict decoding takes the same path. -/
theorem merge_reject_of_input
    (input : Findings.Input schema options (schema.table type) bytes found)
    (clean : .malformed ∉ found)
    (done : (m.merge schema options access (schema.table type) bytes).result = .ok ()) :
    m.merge schema ⟨.reject, options.recursionLimit⟩ access (schema.table type) bytes =
      m.merge schema options access (schema.table type) bytes := by
  obtain ⟨policy, limit⟩ := options
  cases policy with
  | reject => rfl
  | resync =>
    have strict := Findings.input_reject_of_input input clean
    obtain ⟨⟨os, values⟩, -⟩ := Decoding.tells_transcript_iff.2 strict
    have nested := Decoding.agrees_message_resync schema limit .full (bytes.length + 1) limit.toNat
    have forks : (Decoding.transcript schema ⟨.reject, limit⟩ .full (schema.table type) bytes).Forks
        Error.IsMalformedTag (Decoding.transcript schema ⟨.resync, limit⟩ .full _ bytes) :=
      Decoding.forks_records (Tag.agrees_next (bytes.length + 1)) nested _ (Nat.lt_succ_self _)
    have full : m.merge schema ⟨.reject, limit⟩ .full (schema.table type) bytes =
        m.merge schema ⟨.resync, limit⟩ .full (schema.table type) bytes :=
      congrArg (m.replay schema .full) (forks.eq_of_ok values).symm
    rcases merge_agrees_resync schema limit access (schema.table type) m bytes with
      ⟨e, failed, malformed⟩ | same
    · rcases merge_agrees_full schema ⟨.reject, limit⟩ access (schema.table type) m bytes with
        ⟨e', failed', refusal⟩ | whole
      · obtain rfl := Except.error.inj (failed.symm.trans failed')
        exact (refusal.not_isMalformedTag malformed).elim
      · rw [← whole, full, merge_full_of_ok done, done] at failed
        cases failed
    · exact same.symm

theorem malformed_not_mem_of_shows {log : List Event} (shows : Shows log found)
    (quiet : ∀ e ∈ log, e.level ≠ .warn) : .malformed ∉ found := by
  intro mem
  have warned := shows.countP_level .warn
  rw [List.countP_eq_zero.2 (by simpa using quiet)] at warned
  have none := List.countP_eq_zero.1 warned.symm
  exact none _ mem (by simp [Finding.level])

/-- Decoding that succeeds logs what is found in the bytes and nothing else, so that the numbers of
events of each level are numbers of findings. If nothing was warned of, strict decoding does just
the same. And there is nothing but known fields to find in what was written by the same table. -/
theorem log_accounts_for_bytes (schema : Schema) (options : DecodeOptions) (access : Accessors)
    (type : Nat) (m : Message) (bytes : Bytes) :
    let table := schema.table type
    let decoded := m.merge schema options access table bytes
    (decoded.result = .ok () →
      ∃ found,
        (∀ found', Findings.Input schema options table bytes found' ↔ found' = found) ∧
        Shows decoded.log found ∧
        decoded.log.countP (·.level = .warn) =
          found.count .malformed + found.count .mismatched ∧
        decoded.log.countP (·.level = .debug) = found.count .unknown + found.count .stray ∧
        decoded.log.countP (·.level = .trace) = found.count .known ∧
        ((∀ e ∈ decoded.log, e.level ≠ .warn) →
          m.merge schema ⟨.reject, options.recursionLimit⟩ access table bytes = decoded)) ∧
    ∀ written : Message, (written.encode schema table).result = .ok bytes →
      bytes.length < 2 ^ 64 → ∀ e ∈ decoded.log, e.level = .trace := by
  intro table decoded
  refine ⟨fun done => ?_, fun written encoded small =>
    traces_merge_encode encoded small options access m⟩
  obtain ⟨found, shows⟩ := exists_shows_merge schema options access table m bytes
  obtain ⟨warn, debug, trace⟩ := Finding.countP_level found
  have input : Findings.Input schema options table bytes found := (input_iff_shows done).2 shows
  refine ⟨found, fun found' => ?_, shows, ?_, ?_, ?_, fun quiet => ?_⟩
  · rw [input_iff_shows done]
    exact ⟨shows.unique, fun same => same ▸ shows⟩
  · rw [← warn]
    exact shows.countP_level .warn
  · rw [← debug]
    exact shows.countP_level .debug
  · rw [← trace]
    exact shows.countP_level .trace
  · exact merge_reject_of_input input (malformed_not_mem_of_shows shows quiet) done

/-- Each finding is there, three of them malformed tags: one between the records, one in a child
and one in a map entry. The leaf has a single field to write, and reads back without a warning. -/
theorem log_accounts_for_bytes_sample :
    let bytes : Bytes :=
      [0x00, 0x08, 0x05, 0x28, 0x01, 0x1A, 0x04, 0x0A, 0x01, 0x6E, 0x00,
        0x22, 0x0A, 0x0A, 0x01, 0x6B, 0x18, 0x01, 0x00, 0x12, 0x02, 0x0A, 0x00]
    let decoded := Sample.leaf.merge Sample.schema {} .full (Sample.schema.table 0) bytes
    let found : List Finding :=
      [.malformed, .known, .mismatched, .unknown, .known, .known, .malformed, .known, .stray,
        .malformed, .known]
    let written : Bytes := [0xA1, 0x06, 0, 0, 0, 0, 0, 0, 0, 0x80]
    let again := Sample.leaf.merge Sample.schema {} .full (Sample.schema.table 0) written
    decoded.result = .ok () ∧
      Findings.Input Sample.schema {} (Sample.schema.table 0) bytes found ∧
      decoded.log.countP (·.level = .warn) = 4 ∧
      decoded.log.countP (·.level = .debug) = 2 ∧
      decoded.log.countP (·.level = .trace) = 5 ∧
      (Sample.leaf.encode Sample.schema (Sample.schema.table 0)).result = .ok written ∧
      (∀ e ∈ again.log, e.level = .trace) ∧
      Sample.leaf.merge Sample.schema ⟨.reject, 100⟩ .full (Sample.schema.table 0) written =
        again := by
  intro bytes decoded found written again
  have done : decoded.result = .ok () := by decide +kernel
  have told : decoded.log.map Event.finding? = found.map some := by decide +kernel
  obtain ⟨all, only, shows, warn, debug, trace, -⟩ :=
    (log_accounts_for_bytes Sample.schema {} .full 0 Sample.leaf bytes).1 done
  obtain rfl : found = all := shows.unique told
  have encoded : (Sample.leaf.encode Sample.schema (Sample.schema.table 0)).result =
      .ok written := by
    decide +kernel
  have accounts := log_accounts_for_bytes Sample.schema {} .full 0 Sample.leaf written
  have traces := accounts.2 Sample.leaf encoded (by decide)
  obtain ⟨_, _, _, _, _, _, strict⟩ := accounts.1 (by decide +kernel)
  refine ⟨done, (only found).2 rfl, warn, debug, trace, encoded, traces, strict fun e he => ?_⟩
  rw [traces e he]
  decide

end Message

end Protowire
