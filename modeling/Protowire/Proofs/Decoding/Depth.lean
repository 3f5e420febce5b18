import Protowire.Proofs.Decoding.Replay
import Protowire.Proofs.Decoding.Values
import Protowire.Proofs.History
import Protowire.Proofs.RoundTrip

set_option autoImplicit false

/-!
# How deep decoded messages nest

Every message that is read is one level further down, and the limit counts these levels. A message
in place of the value that a map entry does not have is not read, and nothing counts it. It is
fresh, so it can be one level below the limit and no further.
-/

namespace Protowire

variable {fills p : Value → Prop}

/-- All values in the slot have the property, except that map values may be those that fill in for
missing ones. -/
def Slot.Stores (fills p : Value → Prop) : Slot → Prop
  | .unset => True
  | .single v => p v
  | .repeated vs => ∀ v ∈ vs, p v
  | .map es => ∀ e ∈ es, p e.key ∧ (fills e.value ∨ p e.value)

def Message.Stores (fills p : Value → Prop) (m : Message) : Prop :=
  ∀ s ∈ m.slots, s.Stores fills p

def Update.Stores (fills p : Value → Prop) : Update → Prop
  | .set _ v => p v
  | .append _ vs => ∀ v ∈ vs, p v
  | .insert _ key value => p key ∧ (fills value ∨ p value)

namespace Message

variable {schema : Schema} {access : Accessors} {m : Message} {i : Nat}

theorem Stores.slot (h : m.Stores fills p) (i : Nat) : (m.slot i).Stores fills p := by
  rw [Message.slot]
  cases found : m.slots[i]? with
  | none => trivial
  | some s => exact h s (List.mem_of_getElem? found)

theorem Stores.put {s : Slot} (h : m.Stores fills p) (hs : s.Stores fills p) :
    (m.put i s).Stores fills p := by
  unfold Message.put
  split
  · intro s' hs'
    rcases List.mem_or_eq_of_mem_set hs' with old | rfl
    · exact h s' old
    · exact hs
  · intro s' hs'
    simp only [List.mem_append, List.mem_singleton] at hs'
    rcases hs' with (old | padding) | rfl
    · exact h s' old
    · obtain rfl := List.eq_of_mem_replicate padding
      trivial
    · exact hs

theorem Stores.push {v : Value} (h : m.Stores fills p) (hv : p v) :
    (m.push i v).Stores fills p := by
  have elements : ∀ w ∈ (m.slot i).elements, p w := by
    have stored := h.slot i
    cases found : m.slot i with
    | repeated vs =>
      rw [found] at stored
      exact stored
    | _ =>
      intro w hw
      cases hw
  refine h.put fun w hw => ?_
  rcases List.mem_append.1 hw with old | new
  · exact elements w old
  · obtain rfl := List.mem_singleton.1 new
    exact hv

theorem Stores.insert {key value : Value} (h : m.Stores fills p) (hk : p key)
    (hv : fills value ∨ p value) :
    (m.put i (.map (Entry.insert key value (m.slot i).entries))).Stores fills p := by
  have entries : ∀ e ∈ (m.slot i).entries, p e.key ∧ (fills e.value ∨ p e.value) := by
    have stored := h.slot i
    cases found : m.slot i with
    | map es =>
      rw [found] at stored
      exact stored
    | _ =>
      intro e he
      cases he
  refine h.put fun e he => ⟨?_, ?_⟩
  · rcases Entry.key_of_mem_insert he with new | ⟨old, ho, same⟩
    · exact new.symm ▸ hk
    · exact same.symm ▸ (entries old ho).1
  · rcases Entry.value_of_mem_insert he with new | ⟨old, ho, same⟩
    · exact new.symm ▸ hv
    · exact same.symm ▸ (entries old ho).2

theorem Stores.appendAll {vs : List Value} (h : m.Stores fills p) (hvs : ∀ v ∈ vs, p v) :
    (m.appendAll schema access i vs).message.Stores fills p := by
  induction vs generalizing m with
  | nil => exact h
  | cons v vs ih =>
    unfold Message.appendAll
    rcases append_cases schema access m i v with ⟨field, -, -, -, -, made⟩ | ⟨e, refused, -⟩
    · rw [made]
      apply ih
      · exact h.push (hvs v List.mem_cons_self)
      · exact fun w hw => hvs w (List.mem_cons_of_mem v hw)
    · rw [refused]
      exact h

/-- An update adds nothing but what it brings. -/
theorem Stores.update {u : Update} (h : m.Stores fills p) (hu : u.Stores fills p) :
    (m.update schema access u).message.Stores fills p := by
  cases u with
  | set i v =>
    rcases set_cases schema m i v with ⟨field, -, -, -, made⟩ | ⟨e, refused, -⟩
    · simp only [Message.update, attempt, made]
      exact h.put hu
    · simp only [Message.update, attempt, refused]
      exact h
  | append i vs => exact h.appendAll hu
  | insert i key value =>
    rcases insert_cases schema access m i key value with
      ⟨field, keyKind, -, -, -, -, -, made⟩ | ⟨e, refused, -⟩
    · simp only [Message.update, attempt, made]
      exact h.insert hu.1 hu.2
    · simp only [Message.update, attempt, refused]
      exact h

end Message

/-- Messages nest at most `levels` deep in the value. Those that fill in for missing values are
not looked at. -/
def Value.Within (fills : Value → Prop) : (levels : Nat) → Value → Prop
  | _, .scalar _ => True
  | 0, .message _ => False
  | levels + 1, .message m => m.Stores fills (Value.Within fills levels)

abbrev Message.Within (fills : Value → Prop) (levels : Nat) (m : Message) : Prop :=
  m.Stores fills (Value.Within fills levels)

theorem Value.within_scalar (levels : Nat) (s : Scalar) : (scalar s).Within fills levels := by
  cases levels <;> trivial

/-- A slot is as deep as the values that it stores. -/
theorem Slot.Stores.depth_le {s : Slot} {n : Nat} (h : s.Stores fills p)
    (filling : ∀ v, fills v → v.depth ≤ n) (stored : ∀ v, p v → v.depth ≤ n) : s.depth ≤ n := by
  cases s with
  | unset => exact Nat.zero_le n
  | single v => exact stored v h
  | repeated vs => exact Value.maxDepth_le_iff.2 fun v hv => stored v (h v hv)
  | map es =>
    refine Entry.maxDepth_le_iff.2 fun e he => ?_
    obtain ⟨hk, hv⟩ := h e he
    obtain ⟨key, value⟩ := e
    exact Nat.max_le.2 ⟨stored key hk, hv.elim (filling value) (stored value)⟩

theorem Message.Stores.depth_le {m : Message} {n : Nat} (h : m.Stores fills p)
    (filling : ∀ v, fills v → v.depth ≤ n) (stored : ∀ v, p v → v.depth ≤ n) : m.depth ≤ n :=
  depth_le_iff.2 fun s hs => (h s hs).depth_le filling stored

/-- What fills in can be deeper than the levels allow, by its own depth. -/
theorem Value.Within.depth_le {extra : Nat} (filling : ∀ v, fills v → v.depth ≤ extra)
    {levels : Nat} {v : Value} (h : v.Within fills levels) : v.depth ≤ levels + extra := by
  induction levels generalizing v with
  | zero =>
    cases v with
    | scalar s => exact Nat.zero_le _
    | message m => exact h.elim
  | succ levels ih =>
    cases v with
    | scalar s => exact Nat.zero_le _
    | message m =>
      have inner : m.depth ≤ levels + extra :=
        Message.Stores.depth_le h
          (fun w hw => Nat.le_trans (filling w hw) (Nat.le_add_left _ _)) fun w hw => ih hw
      rw [depth]
      omega

theorem Message.Within.depth_le {extra : Nat} (filling : ∀ v, fills v → v.depth ≤ extra)
    {levels : Nat} {m : Message} (h : m.Within fills levels) : m.depth ≤ levels + extra :=
  Stores.depth_le h (fun v hv => Nat.le_trans (filling v hv) (Nat.le_add_left _ _))
    fun _ hv => hv.depth_le filling

/-- The value is put in for a missing one by some map of the family. -/
def Schema.FillsIn (schema : Schema) (v : Value) : Prop :=
  ∃ type, ∃ field ∈ (schema.table type).slots, ∃ keyKind,
    field.cardinality = .map keyKind ∧ v = field.kind.default schema

/-- No map of the family has messages for values. -/
def Schema.MapsHoldScalars (schema : Schema) : Prop :=
  ∀ type, ∀ field ∈ (schema.table type).slots, ∀ keyKind, field.cardinality = .map keyKind →
    ∃ t, field.kind = .scalar t

variable {schema : Schema}

theorem Message.stores_fresh (schema : Schema) (type : Nat)
    (scalar : ∀ s, p (.scalar s)) : (schema.fresh type).Stores fills p := by
  intro s hs
  obtain ⟨⟨number, index, name, cardinality, kind⟩, -, rfl⟩ := List.mem_map.1 hs
  cases cardinality with
  | single =>
    cases kind with
    | scalar t => exact scalar t.default
    | message type => trivial
  | repeated =>
    intro v hv
    cases hv
  | map key =>
    intro e he
    cases he

theorem Message.depth_fresh (schema : Schema) (type : Nat) : (schema.fresh type).depth = 0 := by
  have flat : (schema.fresh type).Stores (fun _ => False) fun v => v.depth ≤ 0 :=
    stores_fresh schema type fun s => Nat.le_refl 0
  exact Nat.le_zero.1 (flat.depth_le (fun _ h => h.elim) fun _ h => h)

theorem Kind.depth_default_le (k : Kind) : (k.default schema).depth ≤ 1 := by
  cases k with
  | scalar t => exact Nat.zero_le 1
  | message type =>
    have flat := Message.depth_fresh schema type
    rw [Kind.default, Value.depth]
    omega

theorem Schema.FillsIn.depth_le {v : Value} (h : schema.FillsIn v) : v.depth ≤ 1 := by
  obtain ⟨type, field, -, keyKind, -, rfl⟩ := h
  exact Kind.depth_default_le field.kind

theorem Schema.MapsHoldScalars.depth_le (h : schema.MapsHoldScalars) {v : Value}
    (fills : schema.FillsIn v) : v.depth ≤ 0 := by
  obtain ⟨type, field, declared, keyKind, cardinality, rfl⟩ := fills
  obtain ⟨t, scalar⟩ := h type field declared keyKind cardinality
  rw [scalar]
  exact Nat.le_refl 0

namespace Decoding

variable {policy : MalformedTagPolicy} {nested : Nat → Read Message}

theorem default_of_isMapKey (schema : Schema) {k : Kind} (h : k.isMapKey = true) :
    ∃ s, k.default schema = .scalar s := by
  cases k with
  | scalar t => exact ⟨t.default, rfl⟩
  | message type => cases h

/-- A record brings what was read, and what fills in. -/
theorem yields_stores (schema : Schema) (policy : MalformedTagPolicy)
    (scalar : ∀ s, p (.scalar s))
    (reads : ∀ k : Kind, (k.read nested).Yields p) (type : Nat) :
    (record schema policy nested (schema.table type)).Yields fun o =>
      ∀ u, o = some u → u.Stores schema.FillsIn p := by
  refine (@yields_record schema policy nested (fun _ => p) reads (schema.table type)).imp
    fun o brought u same => ?_
  obtain ⟨field, declared, w, form, takes, brings⟩ := brought u same
  cases brings with
  | single value => exact value
  | element value =>
    intro v hv
    obtain rfl := List.mem_singleton.1 hv
    exact value
  | packed variants =>
    intro v hv
    obtain ⟨s, -, rfl⟩ := List.mem_map.1 hv
    exact scalar s
  | entry key value =>
    cases takes with
    | entry cardinality =>
      refine ⟨?_, ?_⟩
      · rcases key with missing | read
        · have valid := (schema.built_table type).consistent.keys declared cardinality
          obtain ⟨s, default⟩ := default_of_isMapKey schema valid
          rw [missing, default]
          exact scalar s
        · exact read
      · rcases value with missing | read
        · exact .inl ⟨type, field, declared, _, cardinality, missing⟩
        · exact .inr read

theorem within_replay {access : Accessors} {levels : Nat}
    (reads : ∀ type, (nested type).Yields fun m =>
      (Value.message m).Within schema.FillsIn levels)
    {m : Message} (h : m.Within schema.FillsIn levels) (type : Nat) (w : Cursor) :
    (m.replay schema access (records schema policy nested (schema.table type) w)).message.Within
      schema.FillsIn levels := by
  have kinds : ∀ k : Kind, (k.read nested).Yields (Value.Within schema.FillsIn levels) := by
    intro k
    cases k with
    | scalar t => exact .after fun s => .pure (Value.within_scalar levels s)
    | message type => exact (reads type).bind fun m within => .pure within
  have stored := yields_stores schema policy (Value.within_scalar levels) kinds type
  exact Message.replay_induction (fun _ _ before brought => before.update brought)
    (Transcript.all_untilEnd stored w) h

/-- Nested messages nest no deeper than the levels left, counting themselves. -/
theorem within_message (schema : Schema) (options : DecodeOptions) (access : Accessors)
    (levels type : Nat) : (message schema options access levels type).Yields fun m =>
      (Value.message m).Within schema.FillsIn levels := by
  induction levels generalizing type with
  | zero =>
    intro c m value
    cases value
  | succ levels ih =>
    refine .delimited fun w m value => ?_
    obtain ⟨-, rfl⟩ := Decoded.toLogged_eq_ok_iff.1 value
    have fresh : (schema.fresh type).Within schema.FillsIn levels :=
      Message.stores_fresh schema type (Value.within_scalar levels)
    exact within_replay ih fresh type w

end Decoding

namespace Message

/-- Decoding bytes into a fresh message, by the table of any type of the family, leaves messages
nested no deeper than the limit, those aside that fill in for missing map values. With them it can
be one level more. Where maps hold scalars only, the limit is kept, so that what is written then is
read back under the same limit. -/
theorem within_merge (schema : Schema) (options : DecodeOptions) (access : Accessors)
    (type other : Nat) (bytes : Bytes) :
    let limit := options.recursionLimit.toNat
    let m := ((schema.fresh type).merge schema options access (schema.table other) bytes).message
    m.Within schema.FillsIn limit ∧ m.depth ≤ limit + 1 ∧
      (schema.MapsHoldScalars → m.depth ≤ limit ∧
        ∀ written, (m.encode schema (schema.table type)).result = .ok written →
          written.length < 2 ^ 64 →
          let again := (schema.fresh type).merge schema options .full (schema.table type) written
          again.result = .ok () ∧ again.message = m) := by
  intro limit m
  have fresh : (schema.fresh type).Within schema.FillsIn limit :=
    stores_fresh schema type (Value.within_scalar limit)
  have within : m.Within schema.FillsIn limit :=
    Decoding.within_replay (Decoding.within_message schema options access limit) fresh other _
  refine ⟨within, within.depth_le fun _ fills => fills.depth_le, fun scalars => ?_⟩
  have nests : m.depth ≤ limit := within.depth_le fun _ fills => scalars.depth_le fills
  refine ⟨nests, fun written encoded small => ?_⟩
  have ofType : m.OfType schema type :=
    @OfType.perform schema access type (schema.fresh type)
      (.decode options (schema.table other) bytes) (ofType_fresh schema type) trivial
  obtain ⟨own, fits⟩ := ofType
  rw [← own] at fits encoded ⊢
  rw [encode_of_fits fits] at encoded
  cases encoded
  have read := merge_reference options fits small
  rw [Decoding.within_of_true nests] at read
  exact Decoded.toLogged_eq_ok_iff.1 read

/-- A map entry without a value, where no level is left: a message is nested all the same, and it
is too deep when it has been written. -/
theorem depth_merge_missing_value :
    let options : DecodeOptions := ⟨.resync, 0⟩
    let table := Sample.schema.table 0
    let decoded := (Sample.schema.fresh 0).merge Sample.schema options .full table [0x22, 0x00]
    decoded.result = .ok () ∧ decoded.message.depth = 1 ∧
      ∃ written, (decoded.message.encode Sample.schema table).result = .ok written ∧
        ((Sample.schema.fresh 0).merge Sample.schema options .full table written).result =
          .error (.recursionLimit 0) := by
  refine ⟨by decide +kernel, by decide +kernel, [0x22, 0x02, 0x12, 0x00], ?_⟩
  decide +kernel

end Message

end Protowire
