import Protowire.Proofs.Decoding.Failure
import Protowire.Proofs.Decoding.Replay
import Protowire.Proofs.Encoding.Reference
import Protowire.Proofs.Message.Access

set_option autoImplicit false

/-!
# The history of a message

A message starts fresh, and after that bytes are decoded into it, by its own table or another one,
and slots are changed from outside. Some of this is refused or fails half way. The message fits its
type all the same, so it can always be written.
-/

namespace Protowire

/-- What may happen to a message. -/
inductive Operation
  | decode (options : DecodeOptions) (table : FieldTable) (bytes : Bytes)
  | change (u : Update)

/-- Messages brought in from outside fit their types. Bytes may be any. -/
def Operation.Intact (schema : Schema) : Operation → Prop
  | .decode _ _ _ => True
  | .change u => u.Intact schema

/-- If the error is a refusal, then of a change that some type does not let be made. -/
def Error.DueTo (access : Accessors) (e : Error) : Prop :=
  e.Refusal → (∃ slot, e = .unsupportedCardinality slot) ∧ access ≠ .full

namespace Message

variable (schema : Schema) (access : Accessors)

def perform (m : Message) : Operation → Changed
  | .decode options table bytes => (m.merge schema options access table bytes).toChanged
  | .change u => m.update schema access u

/-- One operation after the other, whether the one before succeeded or not. -/
def performAll (m : Message) (operations : List Operation) : Message :=
  operations.foldl (fun m operation => (m.perform schema access operation).message) m

end Message

namespace Decoding

variable {schema : Schema} {policy : MalformedTagPolicy} {nested : Nat → Read Message}

/-- The values of an update are of some kind, whatever table the record was read by. -/
theorem yields_intact (sound : Sound schema nested) (table : FieldTable) :
    (record schema policy nested table).Yields fun o => ∀ u, o = some u → u.Intact schema := by
  have half {k : Kind} {v : Value} (h : v = k.default schema ∨ k.Holds schema v) :
      v.Intact schema := by
    rcases h with missing | read
    · exact missing.symm ▸ (holds_default k).intact
    · exact read.intact
  refine (yields_record (yields_kind sound) table).imp fun o brought u same => ?_
  obtain ⟨field, -, w, form, -, brings⟩ := brought u same
  cases brings with
  | single value => exact value.intact
  | element value =>
    intro w hw
    obtain rfl := List.mem_singleton.1 hw
    exact value.intact
  | packed variants =>
    intro v hv
    obtain ⟨s, -, rfl⟩ := List.mem_map.1 hv
    trivial
  | entry key value => exact ⟨half key, half value⟩

end Decoding

namespace Message

variable {schema : Schema} {access : Accessors} {type : Nat} {m : Message}

/-- A single operation leaves a message that fits. -/
theorem OfType.perform {operation : Operation} (h : m.OfType schema type)
    (intact : operation.Intact schema) :
    (m.perform schema access operation).message.OfType schema type := by
  cases operation with
  | decode options table bytes =>
    have sound := Decoding.sound_message schema options access options.recursionLimit.toNat
    exact h.replay (Transcript.all_untilEnd (Decoding.yields_intact sound table) _)
  | change u => exact h.update intact

theorem OfType.performAll {operations : List Operation} (h : m.OfType schema type)
    (intact : ∀ operation ∈ operations, operation.Intact schema) :
    (m.performAll schema access operations).OfType schema type := by
  induction operations generalizing m with
  | nil => exact h
  | cons operation operations ih =>
    apply ih (h.perform (intact operation List.mem_cons_self))
    exact fun other ho => intact other (List.mem_cons_of_mem operation ho)

/-- Through the message's own table no change is refused but one that its type does not let be
made. -/
theorem dueTo_of_merge {options : DecodeOptions} {bytes : Bytes} {e : Error}
    (failed : (m.merge schema options access (schema.table m.type) bytes).result = .error e) :
    e.DueTo access := by
  have payload : ∀ e : Error, e.OfPayload → e.DueTo access := by
    intro e bytes refusal
    cases bytes <;> cases refusal
  have tags : (Tag.next options.malformedTags).FailsWith (Error.DueTo access) :=
    Tag.failsWith_next payload fun _ offset raw refusal => by cases refusal
  have refused : ∀ (m : Message) (u : Update) e, u.Suits schema m.type →
      (m.update schema access u).result = .error e → e.DueTo access := by
    intro m u e suits refused _
    by_cases permits : (access m.type).Permits u
    · rw [update_of_permits permits, update_of_suits suits] at refused
      cases refused
    · rw [update_of_not_permits permits] at refused
      cases refused
      refine ⟨⟨u.slot, rfl⟩, ?_⟩
      rintro rfl
      exact permits (Access.permits_full u)
  have nested := Decoding.failsWith_message payload schema options access tags refused
    (fun refusal => by cases refusal) options.recursionLimit.toNat
  have sound := Decoding.sound_message schema options access options.recursionLimit.toNat
  exact Decoding.failsWith_replay payload tags nested sound refused failed

/-- However a message came about from a fresh one, it fits its type, and it can be written, whatever
the types let be changed. Decoding by its own table meets no value that a slot does not take, and
where all types let everything be changed, it is never refused. -/
theorem fits_performAll (schema : Schema) (access : Accessors) (type : Nat)
    (operations : List Operation)
    (intact : ∀ operation ∈ operations, operation.Intact schema) :
    let m := (schema.fresh type).performAll schema access operations
    m.OfType schema type ∧ (∃ bytes, (m.encode schema (schema.table type)).result = .ok bytes) ∧
      ∀ options bytes,
        let result := (m.merge schema options access (schema.table type) bytes).result
        (∀ expected found, result ≠ .error (.typeMismatch expected found)) ∧
          (access = .full → ∀ slot, result ≠ .error (.unsupportedCardinality slot)) := by
  intro m
  have ofType : m.OfType schema type := (ofType_fresh schema type).performAll intact
  refine ⟨ofType, ⟨_, encode_of_fits ofType.fits⟩, ?_⟩
  intro options bytes result
  have dueTo : ∀ e, result = .error e → e.DueTo access := by
    intro e failed
    have failed : (m.merge schema options access (schema.table m.type) bytes).result =
        .error e := by
      rw [ofType.type_eq]
      exact failed
    exact dueTo_of_merge failed
  constructor
  · intro expected found failed
    obtain ⟨⟨slot, same⟩, -⟩ := dueTo _ failed (.typeMismatch expected found)
    cases same
  · exact fun full slot failed => (dueTo _ failed (.unsupportedCardinality slot)).2 full

end Message

/-- Text, a list that ends in a malformed tag, a string where another table has the name, a list of
which only the first value is taken, and messages from outside. -/
def Sample.history : List Operation :=
  [.decode {} Sample.table [0x0A, 0x01, 0x6E],
    .decode .strict Sample.table [0x12, 0x02, 0x01, 0x02, 0x0F],
    .decode {} (.empty "other") [0x0A, 0x01, 0x6F],
    .change (.append 2 [.scalar (.i32 5), .scalar (.bool true)]),
    .change (.set 0 (.message Sample.leaf)),
    .change (.insert 4 (.scalar (.string "k")) (.message Sample.leaf))]

/-- The sample history, with all accessors there. -/
theorem Message.fits_performAll_history :
    (∀ operation ∈ Sample.history, operation.Intact Sample.schema) ∧
    let m := (Sample.schema.fresh 0).performAll Sample.schema .full Sample.history
    m.OfType Sample.schema 0 ∧
      (∃ bytes, (m.encode Sample.schema (Sample.schema.table 0)).result = .ok bytes) ∧
      ∀ options bytes,
        let result := (m.merge Sample.schema options .full (Sample.schema.table 0) bytes).result
        (∀ expected found, result ≠ .error (.typeMismatch expected found)) ∧
          ∀ slot, result ≠ .error (.unsupportedCardinality slot) := by
  have intact : ∀ operation ∈ Sample.history, operation.Intact Sample.schema := by
    simp [Sample.history, Operation.Intact, Update.Intact, Value.Intact]
    exact Sample.leaf_fits
  obtain ⟨ofType, written, decoding⟩ :=
    Message.fits_performAll Sample.schema .full 0 Sample.history intact
  exact ⟨intact, ofType, written, fun options bytes =>
    ⟨(decoding options bytes).1, (decoding options bytes).2 rfl⟩⟩

/-- A child that takes no weights refuses them, however it is nested. -/
example : ((Sample.schema.fresh 0).merge Sample.schema {} .singular Sample.table
    [0x1A, 0x02, 0x10, 0x05]).result = .error (.unsupportedCardinality 2) := by
  decide +kernel

end Protowire
