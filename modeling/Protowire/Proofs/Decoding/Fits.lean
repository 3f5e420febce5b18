import Protowire.Decoding
import Protowire.Proofs.Decoding.Replay
import Protowire.Proofs.Decoding.Values
import Protowire.Proofs.Message.Access

set_option autoImplicit false

/-!
# Decoding builds messages that fit

Whatever the bytes are, each record gives an update that suits the message type it is read for. So
no update is refused, the message is the fold of all of them, and it fits.
-/

namespace Protowire

namespace Decoding

variable {schema : Schema} {policy : MalformedTagPolicy} {nested : Nat → Read Message}

/-- Nested messages are of the type they are read as, and fit it. -/
def Sound (schema : Schema) (nested : Nat → Read Message) : Prop :=
  ∀ type, (nested type).Yields fun m => m.type = type ∧ m.Fits schema (schema.table type)

theorem yields_kind (sound : Sound schema nested) (k : Kind) :
    (k.read nested).Yields (k.Holds schema) := by
  cases k with
  | scalar t => exact t.yields_read.bind fun s variant => .pure (.scalar variant)
  | message type =>
    refine (sound type).bind fun m h => .pure ?_
    obtain ⟨rfl, fits⟩ := h
    exact .message fits

theorem holds_default (k : Kind) : k.Holds schema (k.default schema) := by
  cases k with
  | scalar t => exact .scalar (ScalarType.variant_default t)
  | message type => exact .message (m := schema.fresh type) (Message.fits_fresh schema type)

/-- An update suits the type that declares its field. A default is of its kind like any value. -/
theorem suits_of_brings {type : Nat} {field : FieldSlot} {w : WireType} {form : Form} {u : Update}
    (declared : field ∈ (schema.table type).slots) (takes : field.Takes w form)
    (brings : u.Brings schema (Kind.Holds schema) field form) : u.Suits schema type := by
  have slot := (schema.built_table type).consistent.getElem?_index declared
  have half {k : Kind} {v : Value} (h : v = k.default schema ∨ k.Holds schema v) :
      k.Holds schema v := by
    rcases h with missing | read
    · exact missing.symm ▸ holds_default k
    · exact read
  cases brings with
  | single value =>
    cases takes with
    | single cardinality => exact ⟨field, slot, cardinality, value⟩
  | element value =>
    cases takes with
    | element cardinality => exact ⟨field, slot, cardinality, by simpa using value⟩
  | @packed t ss variants =>
    cases takes with
    | packed cardinality scalar packable =>
      refine ⟨field, slot, cardinality, fun v hv => ?_⟩
      obtain ⟨s, hs, rfl⟩ := List.mem_map.1 hv
      rw [scalar]
      exact .scalar (variants s hs)
  | @entry keyKind key value hk hv =>
    cases takes with
    | entry cardinality => exact ⟨field, keyKind, slot, cardinality, half hk, half hv⟩

/-- What a record does suits the type whose table it is read by. -/
theorem yields_suiting (sound : Sound schema nested) (type : Nat) :
    (record schema policy nested (schema.table type)).Yields fun o =>
      ∀ u, o = some u → u.Suits schema type := by
  refine (yields_record (yields_kind sound) (schema.table type)).imp fun o brought u same => ?_
  obtain ⟨field, declared, w, form, takes, brings⟩ := brought u same
  exact suits_of_brings declared takes brings

theorem all_records (sound : Sound schema nested) (type : Nat) (w : Cursor) :
    (records schema policy nested (schema.table type) w).All fun o =>
      ∀ u, o = some u → u.Suits schema type :=
  Transcript.all_untilEnd (yields_suiting sound type) w

end Decoding

theorem Decoded.toLogged_eq_ok_iff {d : Decoded} {m : Message} :
    d.toLogged.result = .ok m ↔ d.result = .ok () ∧ d.message = m := by
  obtain ⟨⟨message, result⟩, log⟩ := d
  cases result <;> simp [toLogged, Except.map]

theorem Decoded.toLogged_eq_error_iff {d : Decoded} {e : Error} :
    d.toLogged.result = .error e ↔ d.result = .error e := by
  obtain ⟨⟨message, result⟩, log⟩ := d
  cases result <;> simp [toLogged, Except.map]

/-- An update that suits its type brings messages that fit theirs. -/
theorem Update.Suits.intact {schema : Schema} {type : Nat} {u : Update}
    (h : u.Suits schema type) : u.Intact schema := by
  cases u with
  | set i v =>
    obtain ⟨field, -, -, value⟩ := h
    exact value.intact
  | append i vs =>
    obtain ⟨field, -, -, values⟩ := h
    exact fun v hv => (values v hv).intact
  | insert i key value =>
    obtain ⟨field, keyKind, -, -, hk, hv⟩ := h
    exact ⟨hk.intact, hv.intact⟩

namespace Message

variable {schema : Schema}

theorem OfType.replay {access : Accessors} {type : Nat} {m : Message}
    {t : Transcript (Option Update)} (intact : t.All fun o => ∀ u, o = some u → u.Intact schema)
    (h : m.OfType schema type) : (m.replay schema access t).message.OfType schema type :=
  replay_induction (fun _ _ ofType allowed => ofType.update allowed) intact h

/-- If all updates suit the message's type, it becomes the fold of them, and how reading ends is
how the whole ends. -/
theorem replay_of_suits {m : Message} {t : Transcript (Option Update)}
    (h : t.All fun o => ∀ u, o = some u → u.Suits schema m.type) :
    (m.replay schema .full t).toLogged.result =
      (fun os => os.foldl apply m) <$> t.values.result := by
  induction t generalizing m with
  | finished => rfl
  | failed e log => rfl
  | turn o log next ih =>
    obtain ⟨first, others⟩ := h
    cases o with
    | none =>
      have rest := ih others
      change (m.replay schema .full next).toLogged.result = _
      rw [rest]
      change _ = _ <$> (none :: ·) <$> next.values.result
      cases next.values.result <;> rfl
    | some u =>
      have made := update_of_suits (first u rfl)
      rw [← type_apply m (some u)] at others
      have rest := ih others
      have step : (m.replay schema .full (.turn (some u) log next)).toLogged.result =
          ((m.apply (some u)).replay schema .full next).toLogged.result := by
        rw [replay, made]
        rfl
      rw [step, rest]
      change _ = _ <$> (some u :: ·) <$> next.values.result
      cases next.values.result <;> rfl

/-- If all updates suit the message's type, reading succeeds where nothing fails to be read and the
type lets all of them be made. -/
theorem replay_eq_ok_iff {access : Accessors} {m m' : Message} {t : Transcript (Option Update)}
    (h : t.All fun o => ∀ u, o = some u → u.Suits schema m.type) :
    (m.replay schema access t).toLogged.result = .ok m' ↔
      ∃ os, t.values.result = .ok os ∧ (∀ u, some u ∈ os → (access m.type).Permits u) ∧
        os.foldl apply m = m' := by
  induction t generalizing m with
  | finished => simp [replay, Decoded.toLogged_eq_ok_iff, Transcript.values]
  | failed e log => simp [replay, Decoded.toLogged_eq_ok_iff, Transcript.values]
  | turn o log next ih =>
    obtain ⟨first, others⟩ := h
    have values {os : List (Option Update)} :
        (Transcript.turn o log next).values.result = .ok os ↔
          ∃ later, next.values.result = .ok later ∧ o :: later = os := Result.map_eq_ok_iff
    -- what is left to replay, once the first update is made
    rw [← type_apply m o] at others
    have later := ih others
    rw [type_apply] at later
    have made (permits : ∀ u, o = some u → (access m.type).Permits u) :
        (m.replay schema access (.turn o log next)).toLogged.result =
          ((m.apply o).replay schema access next).toLogged.result := by
      cases o with
      | none => rfl
      | some u =>
        rw [replay, update_of_permits (permits u rfl), update_of_suits (first u rfl)]
        rfl
    constructor
    · intro success
      have permits : ∀ u, o = some u → (access m.type).Permits u := by
        rintro u rfl
        by_contra denies
        rw [replay, update_of_not_permits denies] at success
        cases success
      rw [made permits, later] at success
      obtain ⟨os, found, others, same⟩ := success
      refine ⟨o :: os, values.2 ⟨os, found, rfl⟩, fun u hu => ?_, same⟩
      rcases List.mem_cons.1 hu with here | there
      · exact permits u here.symm
      · exact others u there
    · rintro ⟨_, told, permits, same⟩
      obtain ⟨os, found, rfl⟩ := values.1 told
      rw [made fun u hu => permits u (hu ▸ List.mem_cons_self), later]
      exact ⟨os, found, fun u hu => permits u (List.mem_cons_of_mem o hu), same⟩

end Message

namespace Decoding

variable {schema : Schema} {nested : Nat → Read Message}

/-- Reading records into a message of the type, in terms of the records alone. -/
theorem replay_records (sound : Sound schema nested) (policy : MalformedTagPolicy) (m : Message)
    (w : Cursor) :
    (m.replay schema .full (records schema policy nested (schema.table m.type) w)).toLogged.result
      = (fun os => os.foldl Message.apply m) <$>
        (records schema policy nested (schema.table m.type) w).values.result :=
  Message.replay_of_suits (all_records sound m.type w)

/-- However deep messages nest, each is of the type it is read as and fits it. -/
theorem sound_message (schema : Schema) (options : DecodeOptions) (access : Accessors)
    (levels : Nat) : Sound schema (message schema options access levels) := by
  induction levels with
  | zero =>
    intro type c m value
    cases value
  | succ levels ih =>
    intro type
    refine .delimited fun w m value => ?_
    obtain ⟨-, rfl⟩ := Decoded.toLogged_eq_ok_iff.1 value
    have suit := @all_records schema options.malformedTags _ ih type w
    have intact := suit.imp fun o suits u hu => (suits u hu).intact
    have ofType : (Message.replay schema access _ _).message.OfType schema type :=
      (Message.ofType_fresh schema type).replay intact
    exact ⟨ofType.type_eq, ofType.fits⟩

end Decoding

end Protowire
