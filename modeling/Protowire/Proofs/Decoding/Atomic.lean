import Protowire.Proofs.Decoding.Grammar
import Protowire.Proofs.Decoding.Replay
import Protowire.Proofs.Message.Access

set_option autoImplicit false

/-!
# Decoding fails between records

Where strict decoding fails, it leaves the message that the records in front of the failing one
leave. A record changes the message after it was read as a whole, and a change that is refused
changes nothing.
-/

namespace Protowire

namespace Message

variable {schema : Schema} {access : Accessors} {m : Message}

theorem message_attempt_of_error {change : Message → Except Error Message} {e : Error}
    (failed : (m.attempt change).result = .error e) : (m.attempt change).message = m := by
  unfold attempt at failed ⊢
  cases made : change m with
  | ok m' =>
    rw [made] at failed
    cases failed
  | error e' => rfl

theorem message_appendAll_singleton {i : Nat} {v : Value} {e : Error}
    (failed : (m.appendAll schema access i [v]).result = .error e) :
    (m.appendAll schema access i [v]).message = m := by
  unfold appendAll at failed ⊢
  cases made : m.append schema access i v with
  | ok m' =>
    rw [made] at failed
    cases failed
  | error e' => rfl

/-- Scalars of one variant are all taken or all refused, so the first one decides. -/
theorem message_appendAll_scalars {t : ScalarType} {ss : List Scalar}
    (variants : ∀ s ∈ ss, s.variant = t.variant) {i : Nat} {e : Error}
    (failed : (m.appendAll schema .full i (ss.map .scalar)).result = .error e) :
    (m.appendAll schema .full i (ss.map .scalar)).message = m := by
  cases ss with
  | nil => cases failed
  | cons s ss =>
    rcases append_cases schema .full m i (.scalar s) with
      ⟨field, -, declared, cardinality, taken, made⟩ | ⟨e', refused, -⟩
    · have suits : (Update.append i ((s :: ss).map .scalar)).Suits schema m.type := by
        refine ⟨field, declared, cardinality, fun v hv => ?_⟩
        obtain ⟨s', hs, rfl⟩ := List.mem_map.1 hv
        have first : field.kind.Holds schema (.scalar s) :=
          Kind.holds_of_accept taken trivial
        cases h : field.kind with
        | scalar own =>
          rw [h] at first
          cases first with
          | scalar variant =>
            rw [variants s List.mem_cons_self] at variant
            exact .scalar ((variants s' hs).trans variant)
        | message type =>
          rw [h] at first
          cases first
      rw [appendAll_of_suits suits] at failed
      cases failed
    · simp only [List.map_cons, appendAll, refused]

/-- What a record brings is taken as a whole or not at all. -/
theorem message_update_of_error {P : Kind → Value → Prop} {field : FieldSlot} {form : Form}
    {u : Update} (brings : u.Brings schema P field form) {e : Error}
    (failed : (m.update schema access u).result = .error e) :
    (m.update schema access u).message = m := by
  by_cases permits : (access m.type).Permits u
  · rw [update_of_permits permits] at failed ⊢
    cases brings with
    | single value => exact message_attempt_of_error failed
    | element value => exact message_appendAll_singleton failed
    | packed variants => exact message_appendAll_scalars variants failed
    | entry key value => exact message_attempt_of_error failed
  · rw [update_of_not_permits permits]

/-- The read ends decoding at the cursor: it fails, or the message refuses the update that was
read. -/
def FailsAt (schema : Schema) (access : Accessors) (x : Read (Option Update)) (m : Message)
    (c : Cursor) (e : Error) : Prop :=
  (x.run c).result = .error e ∨
    ∃ u, (x.run c).result = .ok (some u) ∧ (m.update schema access u).result = .error e

/-- A turn leads on to another message, or its update is refused. -/
theorem replay_turn_cases (schema : Schema) (access : Accessors) (m : Message) (o : Option Update) :
    (∃ m' : Message, ∀ log next, m.replay schema access (.turn o log next) =
      (m'.replay schema access next).after log) ∨
    ∃ u e, o = some u ∧ (m.update schema access u).result = .error e := by
  cases o with
  | none => exact .inl ⟨m, fun log next => replay_turn_none⟩
  | some u =>
    cases result : (m.update schema access u).result with
    | ok _ => exact .inl ⟨_, fun log next => replay_turn_of_ok result⟩
    | error e => exact .inr ⟨u, e, rfl, result⟩

section Turns

variable {x : Read (Option Update)} {P : Bytes → Option Update → Prop} {offset : Nat}
  {bytes : Bytes} {e : Error}

/-- A failing replay ends at the first turn and leaves the message, or makes the turn in full. The
turn is the same with other bytes behind it. -/
theorem replay_untilEnd_cases (consumes : x.Consumes) (recognizes : x.Recognizes P)
    (whole : x.Yields fun o => ∀ u, o = some u → ∀ (m : Message) e,
      (m.update schema access u).result = .error e → (m.update schema access u).message = m)
    (failed : (m.replay schema access (x.untilEnd consumes ⟨offset, bytes⟩)).result = .error e) :
    (m.FailsAt schema access x ⟨offset, bytes⟩ e ∧
      (m.replay schema access (x.untilEnd consumes ⟨offset, bytes⟩)).message = m) ∨
    ∃ first after, first ≠ [] ∧ bytes = first ++ after ∧ ∃ m' : Message, ∀ others, ∃ log,
      m.replay schema access (x.untilEnd consumes ⟨offset, first ++ others⟩) =
        (m'.replay schema access
          (x.untilEnd consumes ⟨offset + first.length, others⟩)).after log := by
  by_cases empty : bytes = []
  · have finished : x.untilEnd consumes ⟨offset, bytes⟩ = .finished :=
      Read.untilEnd_of_nil empty
    rw [finished] at failed
    cases failed
  · cases value : (x.run ⟨offset, bytes⟩).result with
    | error e' =>
      have ends : x.untilEnd consumes ⟨offset, bytes⟩ = _ := Read.untilEnd_of_error empty value
      rw [ends] at failed ⊢
      cases failed
      exact .inl ⟨.inl value, rfl⟩
    | ok o =>
      rcases replay_turn_cases schema access m o with ⟨m', made⟩ | ⟨u, e', rfl, refused⟩
      · obtain ⟨first, unread, spelled⟩ := recognizes.taken value
        have taken := recognizes.takes spelled
        refine .inr ⟨first, _, consumes.ne_nil taken, unread, m', fun others => ?_⟩
        obtain ⟨log, turn⟩ := Read.untilEnd_of_answersAt consumes (taken offset) others
        exact ⟨log, by rw [turn, made]⟩
      · have ends : x.untilEnd consumes ⟨offset, bytes⟩ = _ := Read.untilEnd_of_ok empty value
        rw [ends, replay_turn_of_error refused] at failed ⊢
        rw [refused] at failed
        cases failed
        exact .inl ⟨.inr ⟨u, value, refused⟩, whole _ _ value u rfl m e refused⟩

/-- The turns that are made in full stand in front of the one that fails, and do the same when
nothing stands behind them. -/
theorem exists_failsAt (consumes : x.Consumes) (recognizes : x.Recognizes P)
    (whole : x.Yields fun o => ∀ u, o = some u → ∀ (m : Message) e,
      (m.update schema access u).result = .error e → (m.update schema access u).message = m)
    (failed : (m.replay schema access (x.untilEnd consumes ⟨offset, bytes⟩)).result = .error e) :
    ∃ front rest, bytes = front ++ rest ∧
      let kept := m.replay schema access (x.untilEnd consumes ⟨offset, front⟩)
      kept.result = .ok () ∧
        kept.message = (m.replay schema access (x.untilEnd consumes ⟨offset, bytes⟩)).message ∧
        kept.message.FailsAt schema access x ⟨offset + front.length, rest⟩ e := by
  -- on the bytes left, which are fewer after each turn
  induction length : bytes.length using Nat.strongRecOn generalizing offset bytes m with
  | ind n ih =>
    rcases replay_untilEnd_cases consumes recognizes whole failed with
      ⟨fails, unchanged⟩ | ⟨first, after, nonempty, rfl, m', turn⟩
    · have nothing : x.untilEnd consumes ⟨offset, []⟩ = .finished := Read.untilEnd_of_nil rfl
      refine ⟨[], bytes, rfl, ?_⟩
      rw [nothing]
      exact ⟨rfl, unchanged.symm, fails⟩
    · have shorter : after.length < n := by
        have positive := List.length_pos_iff.2 nonempty
        rw [List.length_append] at length
        omega
      obtain ⟨log, made⟩ := turn after
      rw [made, Decoded.result_after] at failed
      obtain ⟨front, rest, rfl, done, message, fails⟩ := ih _ shorter failed rfl
      obtain ⟨log', kept⟩ := turn front
      refine ⟨first ++ front, rest, (List.append_assoc ..).symm, ?_⟩
      rw [made, kept, List.length_append, ← Nat.add_assoc]
      exact ⟨done, message, fails⟩

end Turns

/-- Strict decoding that fails leaves what the bytes in front of some record leave on their own,
which are decoded without an error. It ends at that record, and nothing of the record shows. -/
theorem merge_atomic (schema : Schema) (limit : UInt32) (access : Accessors) {table : FieldTable}
    (built : table.Built) (m : Message) {bytes : Bytes} {e : Error}
    (failed : (m.merge schema ⟨.reject, limit⟩ access table bytes).result = .error e) :
    let decoded := m.merge schema ⟨.reject, limit⟩ access table bytes
    let nested := Decoding.message schema ⟨.reject, limit⟩ access limit.toNat
    ∃ front rest, bytes = front ++ rest ∧
      let kept := m.merge schema ⟨.reject, limit⟩ access table front
      kept.result = .ok () ∧ kept.message = decoded.message ∧
        kept.message.FailsAt schema access (Decoding.record schema .reject nested table)
          ⟨front.length, rest⟩ e := by
  intro decoded nested
  obtain ⟨language, messages⟩ :=
    Decoding.exists_recognizes_message schema limit access limit.toNat
  have recognizes := @Decoding.recognizes_record schema _ _ messages _ built
  have reads : ∀ k : Kind, (k.read nested).Yields fun _ => True := fun _ _ _ _ => trivial
  have whole : (Decoding.record schema .reject nested table).Yields fun o => ∀ u, o = some u →
      ∀ (m : Message) e, (m.update schema access u).result = .error e →
        (m.update schema access u).message = m := by
    refine (Decoding.yields_record reads table).imp fun o brought u same m e refused => ?_
    obtain ⟨field, -, w, form, -, brings⟩ := brought u same
    exact message_update_of_error brings refused
  obtain ⟨front, rest, split, done, message, fails⟩ := exists_failsAt
    (Decoding.consumes_record schema .reject nested table) recognizes whole failed
  rw [Nat.zero_add] at fails
  exact ⟨front, rest, split, done, message, fails⟩

/-- A name, and weights the second of which is cut off. The message has the name only. -/
theorem merge_atomic_weights :
    let bytes : Bytes := [0x0A, 0x01, 0x6E, 0x12, 0x02, 0x02, 0x80]
    let decoded := Sample.leaf.merge Sample.schema ⟨.reject, 100⟩ .full Sample.table bytes
    let nested := Decoding.message Sample.schema ⟨.reject, 100⟩ .full 100
    Sample.table.Built ∧ decoded.result = .error (.underrun 1 0) ∧
    ∃ front rest, bytes = front ++ rest ∧
      let kept := Sample.leaf.merge Sample.schema ⟨.reject, 100⟩ .full Sample.table front
      kept.result = .ok () ∧ kept.message = decoded.message ∧
        kept.message.FailsAt Sample.schema .full
          (Decoding.record Sample.schema .reject nested Sample.table) ⟨front.length, rest⟩
          (.underrun 1 0) := by
  intro bytes decoded nested
  have built : Sample.table.Built := ⟨"node", Sample.fields, rfl⟩
  have failed : decoded.result = .error (.underrun 1 0) := by decide +kernel
  exact ⟨built, failed, merge_atomic Sample.schema 100 .full built Sample.leaf failed⟩

end Message

end Protowire
