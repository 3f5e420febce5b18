import Protowire.Proofs.Decoding.Replay
import Protowire.Proofs.Guarded.Allowance

set_option autoImplicit false

/-!
# Guarded decoding is decoding

The loops of a reader, which carry their state along, come to what is made of a transcript
afterwards. With that every part of guarded decoding implements its counterpart, down through all
nested messages: on the length of the window, whatever the recursion limit is.
-/

namespace Protowire

variable {α σ : Type}

theorem Logged.log_map {β : Type} (f : α → β) (x : Logged α) : (f <$> x).log = x.log := by
  rw [map_eq_pure_bind]
  cases result : x.result with
  | error e => rw [bind_of_error result]
  | ok a => rw [bind_of_ok result, log_pure, List.append_nil]

theorem result_absorbElement (read : List Scalar) (v : Scalar) :
    (absorbElement read v).result = .ok () := rfl

theorem EntryHalves.result_absorb (found : EntryHalves) (half : Option Half) :
    (found.absorb half).result = .ok () := by
  rcases half with _ | v | v <;> rfl

theorem foldl_absorbElement (values read : List Scalar) :
    values.foldl (fun read v => (absorbElement read v).state) read = read ++ values := by
  induction values generalizing read with
  | nil => exact (List.append_nil read).symm
  | cons v values ih => rw [List.foldl_cons, ih, absorbElement, List.append_assoc, List.cons_append,
      List.nil_append]

theorem Message.fold_absorb (schema : Schema) (access : Accessors) (m : Message)
    (t : Transcript (Option Update)) :
    t.fold (Message.absorb schema access) m =
      (⟨(m.replay schema access t).message, (m.replay schema access t).result⟩,
        (m.replay schema access t).log) := by
  induction t generalizing m with
  | finished => rfl
  | failed e log => rfl
  | turn o log next ih =>
    cases o with
    | none =>
      have taken : m.absorb schema access none = ⟨m, .ok ()⟩ := rfl
      rw [Transcript.fold_of_turn taken, ih, replay_turn_none]
      rfl
    | some u =>
      cases result : (m.update schema access u).result with
      | error e =>
        have refused : m.absorb schema access (some u) =
            ⟨(m.update schema access u).message, .error e⟩ := by
          rw [absorb, result]
        rw [Transcript.fold_of_refusal refused, replay_turn_of_error result, result]
      | ok _ =>
        have made : m.absorb schema access (some u) =
            ⟨(m.update schema access u).message, .ok ()⟩ := by
          rw [absorb, result]
        rw [Transcript.fold_of_turn made, ih, replay_turn_of_ok result]
        rfl

/-- A state that refuses nothing comes out as it is made of all the values. -/
theorem Transcript.fold_values {absorb : σ → α → Outcome σ}
    (taken : ∀ s a, (absorb s a).result = .ok ()) (s : σ) (t : Transcript α) :
    (t.fold absorb s).1.toResult =
        (fun as => as.foldl (fun s a => (absorb s a).state) s) <$> t.values.result ∧
      (t.fold absorb s).2 = t.values.log := by
  induction t generalizing s with
  | finished => exact ⟨rfl, rfl⟩
  | failed e log => exact ⟨rfl, rfl⟩
  | turn a log t ih =>
    obtain ⟨result, log'⟩ := ih (absorb s a).state
    have absorbed : absorb s a = ⟨(absorb s a).state, .ok ()⟩ := by rw [← taken s a]
    rw [fold_of_turn absorbed, values]
    refine ⟨?_, congrArg (log ++ ·) log'⟩
    simp only [result]
    cases t.values.result <;> rfl

theorem EntryHalves.key_foldl (missing : Value) (halves : List (Option Half)) (s : EntryHalves) :
    (halves.foldl (fun s half => (s.absorb half).state) s).key.getD missing =
      Half.lastKey (s.key.getD missing) halves := by
  induction halves generalizing s with
  | nil => rfl
  | cons half halves ih =>
    rw [List.foldl_cons, ih, Half.lastKey, Half.lastKey, List.foldl_cons]
    rcases half with _ | v | v <;> rfl

theorem EntryHalves.value_foldl (missing : Value) (halves : List (Option Half)) (s : EntryHalves) :
    (halves.foldl (fun s half => (s.absorb half).state) s).value.getD missing =
      Half.lastValue (s.value.getD missing) halves := by
  induction halves generalizing s with
  | nil => rfl
  | cons half halves ih =>
    rw [List.foldl_cons, ih, Half.lastValue, Half.lastValue, List.foldl_cons]
    rcases half with _ | v | v <;> rfl

namespace Guarded

variable {g : Guarded α} {x : Read α} {size : Nat}

theorem allowance_toResult (o : Outcome σ) (bytes : Nat) :
    allowance o.toResult bytes = allowance o.result bytes := by
  obtain ⟨s, result⟩ := o
  cases result <;> rfl

theorem fulfils_whole (h : Implements size 1 g x) (hx : x.Consumes) (absorb : σ → α → Outcome σ)
    (s : σ) :
    Fulfils size (whole g absorb s) fun w =>
      ⟨((x.untilEnd hx w).fold absorb s).1.toResult, ((x.untilEnd hx w).fold absorb s).2⟩ := by
  intro m sound short
  obtain ⟨c, work, run, within⟩ := loop_untilEnd h hx absorb sound short s
  refine ⟨c, work, ?_, ?_⟩
  · change (loop g absorb s m).map _ = _
    rw [run]
    rfl
  · rw [allowance_toResult, ← sound.remaining_cursor]
    exact within

/-- The same for a state that refuses nothing. -/
theorem fulfils_values (h : Implements size 1 g x) (hx : x.Consumes) {absorb : σ → α → Outcome σ}
    (taken : ∀ s a, (absorb s a).result = .ok ()) (s : σ) :
    Fulfils size (whole g absorb s) fun w =>
      (fun as => as.foldl (fun s a => (absorb s a).state) s) <$> (x.untilEnd hx w).values := by
  have whole := fulfils_whole h hx absorb s
  have same (w : Cursor) : Logged.mk ((x.untilEnd hx w).fold absorb s).1.toResult
      ((x.untilEnd hx w).fold absorb s).2 =
        (fun as => as.foldl (fun s a => (absorb s a).state) s) <$> (x.untilEnd hx w).values := by
    obtain ⟨result, log⟩ := Transcript.fold_values taken s (x.untilEnd hx w)
    refine Logged.ext ?_ ?_
    · rw [Logged.result_map, result]
    · rw [Logged.log_map, log]
  simp only [same] at whole
  exact whole

variable {schema : Schema} {policy : MalformedTagPolicy} {nested : Nat → Guarded Message}
  {nested' : Nat → Read Message}

theorem implements_packed (t : ScalarType) :
    Implements size 1 (packed t) (Decoding.packed t) := by
  have elements : Implements size 1 (scalar t) t.read :=
    (mirrors_scalar t).implements_turn t.consumes_read
  have found := fulfils_values elements t.consumes_read result_absorbElement []
  simp only [foldl_absorbElement, List.nil_append, id_map'] at found
  exact found.delimited.mono (Nat.le_succ size) (Nat.le_refl 1)

section

variable (h : ∀ type, Implements size 0 (nested type) (nested' type))
include h

theorem implements_value (k : Kind) : Implements size 0 (value nested k) (k.read nested') := by
  cases k with
  | scalar t => exact ((mirrors_scalar t).bind_pure _).implements
  | message type => exact (h type).bind_pure _

theorem implements_half (keyKind kind : Kind) :
    Implements size 1 (half policy nested keyKind kind)
      (Decoding.half policy nested' keyKind kind) := by
  apply (implements_nextTag policy).bind
  intro o
  cases o with
  | none => exact (Mirrors.pure _).implements
  | some tag =>
    simp only
    split
    · exact (implements_value h keyKind).bind_pure _
    · split
      · exact (implements_value h kind).bind_pure _
      · exact ((mirrors_skip tag.wireType).bind_pure _).implements.emit_bind _

theorem implements_entry (keyKind kind : Kind) :
    Implements size 1 (entry schema policy nested keyKind kind)
      (Decoding.entry schema policy nested' keyKind kind) := by
  have turns : Implements size 1 (half policy nested keyKind kind)
      (Decoding.half policy nested' keyKind kind) := implements_half h keyKind kind
  have found := fulfils_values turns (Decoding.consumes_half policy nested' keyKind kind)
    EntryHalves.result_absorb ⟨none, none⟩
  have both := found.bind_pure fun found : EntryHalves =>
    (found.key.getD (keyKind.default schema), found.value.getD (kind.default schema))
  simp only [map_eq_pure_bind, bind_assoc, pure_bind, EntryHalves.key_foldl,
    EntryHalves.value_foldl] at both
  exact both.delimited.mono (Nat.le_succ size) (Nat.le_refl 1)

theorem implements_update (field : FieldSlot) (form : Form) :
    Implements size 0 (update schema policy nested field form)
      (Decoding.update schema policy nested' field form) := by
  cases form with
  | single => exact (implements_value h field.kind).bind_pure _
  | element => exact (implements_value h field.kind).bind_pure _
  | packed t => exact ((implements_packed t).mono (Nat.le_refl _) (Nat.zero_le _)).bind_pure _
  | entry keyKind =>
    exact ((implements_entry h keyKind field.kind).mono (Nat.le_refl _) (Nat.zero_le _)).bind_pure _

theorem implements_record (table : FieldTable) :
    Implements size 1 (record schema policy nested table)
      (Decoding.record schema policy nested' table) := by
  apply (implements_nextTag policy).bind
  intro o
  cases o with
  | none => exact (Mirrors.pure _).implements
  | some tag =>
    have skip := mirrors_skip tag.wireType
    simp only
    cases table.slotByNumber? tag.number.val with
    | none => exact skip.implements.bind fun _ => (Mirrors.pure _).implements.emit_bind _
    | some field =>
      apply Implements.emit_bind
      cases field.form? tag.wireType with
      | none => exact (skip.bind_pure _).implements.emit_bind _
      | some form => exact (implements_update h field form).bind_pure _

theorem fulfils_fields (access : Accessors) (type : Nat) :
    Fulfils size (fields schema policy nested access type) fun w =>
      ((schema.fresh type).replay schema access
        (Decoding.records schema policy nested' (schema.table type) w)).toLogged := by
  have turns : Implements size 1 (record schema policy nested (schema.table type))
      (Decoding.record schema policy nested' (schema.table type)) := implements_record h _
  have found := fulfils_whole turns (Decoding.consumes_record schema policy nested' _)
    (Message.absorb schema access) (schema.fresh type)
  simp only [Message.fold_absorb] at found
  exact found

end

/-- A nested message is the same at every depth, as far as there are levels left: by induction on
the length of the window. -/
theorem implements_message (schema : Schema) (options : DecodeOptions) (access : Accessors)
    (size : Nat) (depth : UInt32) (type : Nat) :
    Implements size 0 (message schema options access depth type)
      (Decoding.message schema options access (options.recursionLimit.toNat - depth.toNat)
        type) := by
  induction size using Nat.strongRecOn generalizing depth type with
  | ind size ih =>
    by_cases deep : options.recursionLimit ≤ depth
    · have none : options.recursionLimit.toNat - depth.toNat = 0 :=
        Nat.sub_eq_zero_of_le (UInt32.le_iff_toNat_le.1 deep)
      have fails : message schema options access depth type =
          fail (.recursionLimit options.recursionLimit) := by
        refine congrArg Guarded.mk (funext fun m => ?_)
        rw [messageFrom, if_pos deep]
      rw [none, fails]
      exact (Mirrors.fail _).implements
    · intro m sound short
      have more : depth < options.recursionLimit := UInt32.not_le.1 deep
      have deeper : (depth + 1).toNat = depth.toNat + 1 := by
        have := UInt32.lt_iff_toNat_lt.1 more
        have := options.recursionLimit.toNat_lt
        rw [UInt32.toNat_add]
        exact Nat.mod_eq_of_lt (by change depth.toNat + 1 < _; omega)
      have levels : options.recursionLimit.toNat - depth.toNat =
          options.recursionLimit.toNat - (depth + 1).toNat + 1 := by
        have := UInt32.lt_iff_toNat_lt.1 more
        omega
      -- inside the window the recursion is on fewer bytes, as the machine asks for
      have nested (type : Nat) : Implements m.reader.remaining 0
          (Guarded.mk fun m' => if m'.reader.remaining < m.reader.remaining then
            messageFrom schema options access (depth + 1) type m' else .error .stuck)
          (Decoding.message schema options access
            (options.recursionLimit.toNat - (depth + 1).toNat) type) := by
        intro m' sound' inside
        obtain ⟨work, performs, within⟩ := ih _ short (depth + 1) type m' sound' inside
        exact ⟨work, (if_pos inside).trans performs, within⟩
      have content : Fulfils m.reader.remaining
          (fields schema options.malformedTags _ access type) _ :=
        fulfils_fields nested access type
      obtain ⟨work, performs, within⟩ := content.delimited m sound (Nat.lt_succ_self _)
      rw [levels]
      refine ⟨work, ?_, Nat.le_of_succ_le within⟩
      rw [Performs] at performs ⊢
      change messageFrom schema options access depth type m = _
      rw [messageFrom, if_neg deep, Word.next_eq more]
      exact performs

/-- Guarded decoding meets no fault and is decoding, and its work is bounded by the bytes alone. -/
theorem merge_eq (schema : Schema) (options : DecodeOptions) (access : Accessors)
    (table : FieldTable) (m : Message) {bytes : Bytes} (small : bytes.length < 2 ^ 64) :
    ∃ work ≤ 11 * bytes.length + 1, merge schema options access table m bytes =
      .ok (m.merge schema options access table bytes, work) := by
  have sound : Machine.Sound ⟨.ofBytes bytes, [], 0⟩ :=
    ⟨Nat.zero_le _, Nat.le_refl _, small⟩
  have start : Machine.cursor ⟨.ofBytes bytes, [], 0⟩ = .ofBytes bytes := by
    change Cursor.mk 0 (bytes.take bytes.length) = _
    rw [List.take_length]
    rfl
  have turns : Implements (bytes.length + 1) 1
      (record schema options.malformedTags (message schema options access 0) table)
      (Decoding.record schema options.malformedTags
        (Decoding.message schema options access options.recursionLimit.toNat) table) :=
    implements_record (fun type => implements_message schema options access _ 0 type) table
  obtain ⟨c, work, run, within⟩ := loop_untilEnd turns (Decoding.consumes_record _ _ _ _)
    (Message.absorb schema access) sound (Nat.lt_succ_self _) m
  rw [start, Message.fold_absorb] at run within
  refine ⟨work, Nat.le_trans within ?_, ?_⟩
  · exact allowance_le_succ _ _
  · change (loop _ _ m _).map _ = _
    rw [run]
    simp only [Except.map, Machine.after, List.nil_append, Nat.zero_add]
    rfl

end Guarded

end Protowire
