import Protowire.Proofs.Decoding.Record
import Protowire.Proofs.RoundTrip.Records

set_option autoImplicit false

/-!
# Reading back what was written

Every record of a written message is read as the update that it stands for, unless messages are
nested too deep in it. All reads that fail fail for that reason, so the depth of the whole message
decides what becomes of it.
-/

namespace Protowire

namespace Decoding

/-- What comes of reading values of which `fits` says whether they nest within the limit. -/
def within {α : Type} (limit : UInt32) (fits : Prop) [Decidable fits] (a : α) : Except Error α :=
  if fits then .ok a else .error (.recursionLimit limit)

section Within

variable {α β : Type} {limit : UInt32} {p q : Prop} [Decidable p] [Decidable q]

theorem within_of_true {a : α} (h : p) : within limit p a = .ok a := if_pos h

theorem within_of_false {a : α} (h : ¬ p) :
    within limit p a = .error (.recursionLimit limit) := if_neg h

theorem within_congr {a : α} (h : p ↔ q) : within limit p a = within limit q a := by
  unfold within
  by_cases hp : p
  · rw [if_pos hp, if_pos (h.1 hp)]
  · rw [if_neg hp, if_neg (mt h.2 hp)]

theorem map_within (f : α → β) (a : α) : f <$> within limit p a = within limit p (f a) := by
  unfold within
  split <;> rfl

/-- Values are all read if each of them is. -/
theorem mapM_within (as : List β) (p : β → Prop) [DecidablePred p] (f : β → α) :
    as.mapM (fun a => within limit (p a) (f a)) =
      within limit (∀ a ∈ as, p a) (as.map f) := by
  induction as with
  | nil => exact (within_of_true (by simp)).symm
  | cons a as ih =>
    rw [List.mapM_cons, ih]
    by_cases first : p a
    · have all : (∀ b ∈ a :: as, p b) ↔ ∀ b ∈ as, p b := by simp [first]
      rw [within_of_true first, within_congr all, Result.ok_bind]
      exact map_within (f a :: ·) (as.map f)
    · -- every value that is too deep gives the same error, so the first one speaks for all
      have notAll : ¬ ∀ b ∈ a :: as, p b := by simp [first]
      rw [within_of_false first, within_of_false notAll]
      rfl

end Within

variable {schema : Schema} {policy : MalformedTagPolicy} {limit : UInt32} {levels : Nat}
  {nested : Nat → Read Message}

/-- Nested messages are read back if they nest within the levels left. -/
def Returns (schema : Schema) (limit : UInt32) (levels : Nat) (nested : Nat → Read Message) :
    Prop :=
  ∀ m : Message, m.Fits schema (schema.table m.type) →
    (Reference.message schema (schema.table m.type) m).length < 2 ^ 64 →
    (nested m.type).Answers (Varint.delimit (Reference.message schema (schema.table m.type) m))
      (within limit (m.depth < levels) m)

theorem length_le_length_flatMap {α : Type} {pieces : List α} {p : α} (hp : p ∈ pieces)
    (bytes : α → Bytes) : (bytes p).length ≤ (pieces.flatMap bytes).length := by
  rw [List.flatMap_def]
  exact (List.sublist_flatten_of_mem (List.mem_map_of_mem hp)).length_le

theorem length_lt_of_delimit {content : Bytes} (small : (Varint.delimit content).length < 2 ^ 64) :
    content.length < 2 ^ 64 := by
  refine Nat.lt_of_le_of_lt ?_ small
  simp [Varint.delimitedSize]

theorem element_scalar {t : ScalarType} {s : Scalar} {p : Payload}
    (payload : t.payload? s = some p) :
    Reference.element schema (.scalar t) (.scalar s) = p.encode := by
  simp [Reference.element, payload]

theorem takes_scalar {t : ScalarType} {s : Scalar} (variant : s.variant = t.variant)
    (small : (Reference.element schema (.scalar t) (.scalar s)).length < 2 ^ 64) :
    t.read.Takes (Reference.element schema (.scalar t) (.scalar s)) s := by
  obtain ⟨p, payload⟩ := Encoding.payload_of_holds variant
  rw [element_scalar payload] at small ⊢
  exact t.recognizes_read.takes
    ⟨p, Payload.spells_encode small, ScalarType.interpret?_of_payload? payload⟩

theorem answers_kind (h : Returns schema limit levels nested) {k : Kind} {v : Value}
    (holds : k.Holds schema v) (small : (Reference.element schema k v).length < 2 ^ 64) :
    (k.read nested).Answers (Reference.element schema k v)
      (within limit (v.depth ≤ levels) v) := by
  cases holds with
  | @scalar t s variant =>
    rw [within_of_true (by simp [Value.depth])]
    exact Read.Answers.bind_pure (takes_scalar variant small) Value.scalar
  | @message m fits =>
    have bytes : Reference.element schema (.message m.type) (.message m) =
        Varint.delimit (Reference.message schema (schema.table m.type) m) := by
      rw [Reference.element]
    have deeper : m.depth < levels ↔ (Value.message m).depth ≤ levels := by
      rw [Value.depth]
      exact Iff.rfl
    rw [bytes] at small ⊢
    have answer := (h m fits (length_lt_of_delimit small)).bind_pure Value.message
    rwa [map_within, within_congr deeper] at answer

theorem answers_key (h : Returns schema limit levels nested) {keyKind kind : Kind} {v : Value}
    (holds : keyKind.Holds schema v)
    (small : (Reference.element schema keyKind v).length < 2 ^ 64) :
    (half policy nested keyKind kind).Answers
      ((Tag.mk .key keyKind.wireType).encode ++ Reference.element schema keyKind v)
      (within limit (v.depth ≤ levels) (some (.key v))) := by
  refine (Tag.takes_next policy (Tag.spells_encode _)).bind ?_
  simp only [and_self, if_true]
  have read := (answers_kind h holds small).bind_pure fun v => some (Half.key v)
  rwa [map_within] at read

theorem answers_value (h : Returns schema limit levels nested) {keyKind kind : Kind} {v : Value}
    (holds : kind.Holds schema v) (small : (Reference.element schema kind v).length < 2 ^ 64) :
    (half policy nested keyKind kind).Answers
      ((Tag.mk .value kind.wireType).encode ++ Reference.element schema kind v)
      (within limit (v.depth ≤ levels) (some (.value v))) := by
  have different : FieldNumber.value ≠ FieldNumber.key := by decide
  refine (Tag.takes_next policy (Tag.spells_encode _)).bind ?_
  simp only [different, false_and, if_false, and_self, if_true]
  have read := (answers_kind h holds small).bind_pure fun v => some (Half.value v)
  rwa [map_within] at read

theorem answers_halves (h : Returns schema limit levels nested) {keyKind kind : Kind} {e : Entry}
    (hk : keyKind.Holds schema e.key) (hv : kind.Holds schema e.value)
    (small : (Reference.entry schema keyKind kind e).length < 2 ^ 64) :
    ∀ p ∈ Reference.halves schema keyKind kind e, p.1 ≠ [] ∧
      (half policy nested keyKind kind).Answers p.1
        (within limit (p.2.depth ≤ levels) (some p.2)) := by
  intro p hp
  rw [← Reference.flatMap_halves] at small
  have short := Nat.lt_of_le_of_lt (length_le_length_flatMap hp Prod.fst) small
  obtain ⟨key, value⟩ := e
  rcases List.mem_append.1 hp with first | second
  · split at first
    · cases first
    · obtain rfl := List.mem_singleton.1 first
      rw [List.length_append] at short
      exact ⟨Reference.tagged_ne_nil _ _,
        answers_key h hk (Nat.lt_of_le_of_lt (Nat.le_add_left _ _) short)⟩
  · split at second
    · cases second
    · obtain rfl := List.mem_singleton.1 second
      rw [List.length_append] at short
      exact ⟨Reference.tagged_ne_nil _ _,
        answers_value h hv (Nat.lt_of_le_of_lt (Nat.le_add_left _ _) short)⟩

theorem values_halves (h : Returns schema limit levels nested) {keyKind kind : Kind} {e : Entry}
    (hk : keyKind.Holds schema e.key) (hv : kind.Holds schema e.value)
    (small : (Reference.entry schema keyKind kind e).length < 2 ^ 64) (offset : Nat) :
    (halves policy nested keyKind kind
        ⟨offset, Reference.entry schema keyKind kind e⟩).values.result =
      within limit (e.depth ≤ levels)
        ((Reference.halves schema keyKind kind e).map fun p => some p.2) := by
  rw [← Reference.flatMap_halves, halves,
    Read.values_untilEnd_flatMap _ _ _ (answers_halves h hk hv small), mapM_within,
    within_congr Reference.depth_halves]

theorem answers_entry (h : Returns schema limit levels nested) {keyKind kind : Kind} {e : Entry}
    (hk : keyKind.Holds schema e.key) (hv : kind.Holds schema e.value)
    (small : (Reference.entry schema keyKind kind e).length < 2 ^ 64) :
    (entry schema policy nested keyKind kind).Answers
      (Varint.delimit (Reference.entry schema keyKind kind e))
      (within limit (e.depth ≤ levels) (e.key, e.value)) := by
  refine Read.answers_delimited small fun offset => ?_
  obtain ⟨key, value⟩ := @Reference.last_halves schema keyKind kind e
  rw [Logged.result_bind, values_halves h hk hv small]
  refine (map_within _ _).trans ?_
  rw [key, value]

theorem answers_single (h : Returns schema limit levels nested) {field : FieldSlot} {v : Value}
    (holds : field.kind.Holds schema v)
    (small : (Reference.element schema field.kind v).length < 2 ^ 64) :
    (update schema policy nested field .single).Answers (Reference.element schema field.kind v)
      (within limit ((Update.set field.index v).depth ≤ levels) (.set field.index v)) := by
  have read := (answers_kind h holds small).bind_pure (Update.set field.index)
  rwa [map_within] at read

theorem answers_element (h : Returns schema limit levels nested) {field : FieldSlot} {v : Value}
    (holds : field.kind.Holds schema v)
    (small : (Reference.element schema field.kind v).length < 2 ^ 64) :
    (update schema policy nested field .element).Answers (Reference.element schema field.kind v)
      (within limit ((Update.append field.index [v]).depth ≤ levels)
        (.append field.index [v])) := by
  have depth : v.depth ≤ levels ↔ (Update.append field.index [v]).depth ≤ levels := by
    simp [Update.depth, Value.maxDepth]
  have read := (answers_kind h holds small).bind_pure fun v => Update.append field.index [v]
  rwa [map_within, within_congr depth] at read

theorem exists_scalars {t : ScalarType} {vs : List Value}
    (h : ∀ v ∈ vs, (Kind.scalar t).Holds schema v) :
    ∃ ss : List Scalar, ss.map Value.scalar = vs ∧ ∀ s ∈ ss, s.variant = t.variant := by
  induction vs with
  | nil => exact ⟨[], rfl, by simp⟩
  | cons v vs ih =>
    obtain ⟨ss, rfl, variants⟩ := ih fun w hw => h w (List.mem_cons_of_mem v hw)
    cases h v List.mem_cons_self with
    | @scalar _ s variant =>
      refine ⟨s :: ss, rfl, fun other ho => ?_⟩
      rcases List.mem_cons.1 ho with rfl | later
      · exact variant
      · exact variants other later

theorem takes_packed {t : ScalarType} {ss : List Scalar}
    (variants : ∀ s ∈ ss, s.variant = t.variant)
    (small : (Reference.elements schema [] (.scalar t) (ss.map .scalar)).length < 2 ^ 64) :
    (packed t).Takes
      (Varint.delimit (Reference.elements schema [] (.scalar t) (ss.map .scalar))) ss := by
  refine Read.answers_delimited small fun offset => ?_
  rw [Reference.elements_eq_flatMap, List.flatMap_map] at small ⊢
  simp only [List.nil_append] at small ⊢
  rw [Read.values_untilEnd_flatMap ss _ Except.ok]
  · exact (List.mapM_pure (f := id)).trans (congrArg _ (List.map_id ss))
  · intro s hs
    have short := Nat.lt_of_le_of_lt (length_le_length_flatMap hs _) small
    have taken := takes_scalar (variants s hs) short
    exact ⟨t.consumes_read.ne_nil taken, taken⟩

/-- No message is nested in what packs. -/
theorem answers_packed {field : FieldSlot} {t : ScalarType} {vs : List Value}
    (values : ∀ v ∈ vs, (Kind.scalar t).Holds schema v)
    (small : (Reference.elements schema [] (.scalar t) vs).length < 2 ^ 64) :
    (update schema policy nested field (.packed t)).Answers
      (Varint.delimit (Reference.elements schema [] (.scalar t) vs))
      (within limit ((Update.append field.index vs).depth ≤ levels)
        (.append field.index vs)) := by
  obtain ⟨ss, rfl, variants⟩ := exists_scalars values
  have flat : (Update.append field.index (ss.map .scalar)).depth ≤ levels := by
    refine Value.maxDepth_le_iff.2 fun v hv => ?_
    obtain ⟨s, -, rfl⟩ := List.mem_map.1 hv
    simp [Value.depth]
  rw [within_of_true flat]
  exact Read.Answers.bind_pure (takes_packed variants small)
    fun ss => Update.append field.index (ss.map .scalar)

theorem answers_insert (h : Returns schema limit levels nested) {field : FieldSlot}
    {keyKind : Kind} {e : Entry} (hk : keyKind.Holds schema e.key)
    (hv : field.kind.Holds schema e.value)
    (small : (Reference.entry schema keyKind field.kind e).length < 2 ^ 64) :
    (update schema policy nested field (.entry keyKind)).Answers
      (Varint.delimit (Reference.entry schema keyKind field.kind e))
      (within limit ((Update.insert field.index e.key e.value).depth ≤ levels)
        (.insert field.index e.key e.value)) := by
  have depth : e.depth ≤ levels ↔ (Update.insert field.index e.key e.value).depth ≤ levels := by
    obtain ⟨key, value⟩ := e
    rw [Entry.depth, Update.depth]
  have read := (@answers_entry schema policy _ _ _ h _ _ e hk hv small).bind_pure
    fun kv => Update.insert field.index kv.1 kv.2
  rwa [map_within, within_congr depth] at read

/-- What the record of a field can be: its wire type and form, its payload and the update that it
makes. -/
inductive Written (schema : Schema) (field : FieldSlot) :
    WireType → Form → Bytes → Update → Prop
  | single {v : Value} : field.cardinality = .single → field.kind.Holds schema v →
      Written schema field field.kind.wireType .single (Reference.element schema field.kind v)
        (.set field.index v)
  | element {v : Value} : field.cardinality = .repeated → field.kind.wireType = .delimited →
      field.kind.Holds schema v →
      Written schema field .delimited .element (Reference.element schema field.kind v)
        (.append field.index [v])
  | packed {t : ScalarType} {vs : List Value} : field.cardinality = .repeated →
      field.kind = .scalar t → field.kind.isPackable = true →
      (∀ v ∈ vs, (Kind.scalar t).Holds schema v) →
      Written schema field .delimited (.packed t)
        (Varint.delimit (Reference.elements schema [] (.scalar t) vs)) (.append field.index vs)
  | entry {keyKind : Kind} {e : Entry} : field.cardinality = .map keyKind →
      keyKind.Holds schema e.key → field.kind.Holds schema e.value →
      Written schema field .delimited (.entry keyKind)
        (Varint.delimit (Reference.entry schema keyKind field.kind e))
        (.insert field.index e.key e.value)

section Written

variable {field : FieldSlot} {w : WireType} {form : Form} {payload : Bytes} {u : Update}

theorem exists_written {s : Slot} (holds : field.Holds schema s) :
    ∀ p ∈ Reference.records schema field s, ∃ w form payload,
      p.1 = (Tag.mk field.number w).encode ++ payload ∧
      Written schema field w form payload p.2 := by
  intro p hp
  cases holds with
  | unset => cases hp
  | single cardinality value =>
    simp only [Reference.records] at hp
    split at hp
    · cases hp
    · obtain rfl := List.mem_singleton.1 hp
      exact ⟨_, _, _, rfl, .single cardinality value⟩
  | repeated cardinality values =>
    simp only [Reference.records] at hp
    split at hp
    · cases hp
    · split at hp
      · next packable =>
        obtain rfl := List.mem_singleton.1 hp
        obtain ⟨t, scalar⟩ := field.kind.exists_scalar_of_isPackable packable
        rw [scalar] at values
        refine ⟨.delimited, .packed t, _, rfl, ?_⟩
        rw [scalar]
        exact .packed cardinality scalar packable values
      · next notPackable =>
        obtain ⟨v, hv, rfl⟩ := List.mem_map.1 hp
        have delimited : field.kind.wireType = .delimited := by
          simpa [Kind.isPackable] using notPackable
        exact ⟨_, _, _, rfl, .element cardinality delimited (values v hv)⟩
  | map cardinality keys values sorted =>
    simp only [Reference.records, cardinality] at hp
    obtain ⟨e, he, rfl⟩ := List.mem_map.1 hp
    exact ⟨_, _, _, rfl, .entry cardinality (keys e he) (values e he)⟩

theorem Written.takes (h : Written schema field w form payload u) : field.Takes w form := by
  cases h with
  | single cardinality value => exact .single cardinality
  | element cardinality delimited value => exact delimited ▸ .element cardinality
  | packed cardinality scalar packable values => exact .packed cardinality scalar packable
  | entry cardinality key value => exact .entry cardinality

theorem Written.answers (h : Returns schema limit levels nested)
    (written : Written schema field w form payload u) (small : payload.length < 2 ^ 64) :
    (update schema policy nested field form).Answers payload
      (within limit (u.depth ≤ levels) u) := by
  cases written with
  | single cardinality value => exact answers_single h value small
  | element cardinality delimited value => exact answers_element h value small
  | packed cardinality scalar packable values =>
    exact answers_packed values (length_lt_of_delimit small)
  | entry cardinality key value => exact answers_insert h key value (length_lt_of_delimit small)

end Written

/-- The payload of each record of a slot is read as the update of the record. -/
theorem answers_update (h : Returns schema limit levels nested) {field : FieldSlot} {s : Slot}
    (holds : field.Holds schema s) (small : (Reference.slot schema field s).length < 2 ^ 64) :
    ∀ p ∈ Reference.records schema field s, ∃ w form payload,
      p.1 = (Tag.mk field.number w).encode ++ payload ∧ field.Takes w form ∧
      (update schema policy nested field form).Answers payload
        (within limit (p.2.depth ≤ levels) p.2) := by
  intro p hp
  rw [← Reference.flatMap_records] at small
  have short := Nat.lt_of_le_of_lt (length_le_length_flatMap hp Prod.fst) small
  obtain ⟨w, form, payload, bytes, written⟩ := exists_written holds p hp
  rw [bytes, List.length_append] at short
  exact ⟨w, form, payload, bytes, written.takes, written.answers h (by omega)⟩

theorem answers_allRecords (h : Returns schema limit levels nested) {type : Nat}
    {fields : List FieldSlot} {ss : List Slot}
    (holds : List.Forall₂ (FieldSlot.Holds schema) fields ss)
    (declared : ∀ field ∈ fields, field ∈ (schema.table type).slots)
    (small : (Reference.slots schema fields ss).length < 2 ^ 64) :
    ∀ p ∈ Reference.allRecords schema fields ss, p.1 ≠ [] ∧
      (record schema policy nested (schema.table type)).Answers p.1
        (within limit (p.2.depth ≤ levels) (some p.2)) := by
  induction holds with
  | nil =>
    intro p hp
    cases hp
  | @cons field s fields ss hs hss ih =>
    rw [Reference.slots, List.length_append] at small
    intro p hp
    rcases List.mem_append.1 hp with first | later
    · obtain ⟨w, form, payload, bytes, takes, updated⟩ :=
        @answers_update schema policy _ _ _ h _ _ hs (by omega) p first
      have recorded : (record schema policy nested (schema.table type)).Answers _ _ :=
        fun _ => answersAt_record (declared field List.mem_cons_self) takes (updated _)
      rw [← bytes, map_within] at recorded
      refine ⟨?_, recorded⟩
      rw [bytes]
      exact Reference.tagged_ne_nil _ _
    · exact ih (fun f hf => declared f (List.mem_cons_of_mem field hf)) (by omega) p later

/-- The records of a whole message, read into a fresh one, give the message back. -/
theorem replay_fresh (h : Returns schema limit levels nested) (sound : Sound schema nested)
    (policy : MalformedTagPolicy) {m : Message} (fits : m.Fits schema (schema.table m.type))
    (small : (Reference.message schema (schema.table m.type) m).length < 2 ^ 64)
    (offset : Nat) :
    ((schema.fresh m.type).replay schema .full
      (records schema policy nested (schema.table m.type)
        ⟨offset, Reference.message schema (schema.table m.type) m⟩)).toLogged.result =
      within limit (m.depth ≤ levels) m := by
  obtain ⟨type, ss⟩ := m
  cases fits with
  | slots holds =>
    simp only at holds small ⊢
    rw [Reference.message] at small ⊢
    have answers := @answers_allRecords schema policy _ _ _ h type _ _ holds (fun _ hf => hf) small
    have values : (records schema policy nested (schema.table type)
        ⟨offset, Reference.slots schema (schema.table type).slots ss⟩).values.result =
        within limit (Slot.maxDepth ss ≤ levels)
          ((Reference.allRecords schema (schema.table type).slots ss).map fun p => some p.2) := by
      rw [← Reference.flatMap_allRecords, records, Read.values_untilEnd_flatMap _ _ _ answers,
        mapM_within, within_congr (Reference.depth_allRecords holds)]
    have index : ∀ i field, (schema.table type).slots[i]? = some field →
        field.index = ([] : List Slot).length + i := by
      intro i field hf
      rw [List.length_nil, Nat.zero_add]
      exact (schema.built_table type).consistent.index hf
    have filled : ((Reference.allRecords schema (schema.table type).slots ss).map
        fun p => some p.2).foldl Message.apply (schema.fresh type) = ⟨type, ss⟩ :=
      Message.foldl_allRecords holds index
    have depth : Slot.maxDepth ss ≤ levels ↔ (⟨type, ss⟩ : Message).depth ≤ levels := by
      rw [Message.depth]
    refine (replay_records sound policy (schema.fresh type) _).trans ?_
    refine (congrArg _ values).trans ?_
    rw [map_within, filled, within_congr depth]

/-- With any number of levels left, messages are read back if they are not too deep for it. -/
theorem returns_message (schema : Schema) (options : DecodeOptions) (levels : Nat) :
    Returns schema options.recursionLimit levels (message schema options .full levels) := by
  -- on the levels and not on the message, since reading knows of no other bound
  induction levels with
  | zero =>
    intro m fits small
    rw [within_of_false (Nat.not_lt_zero _)]
    exact Read.answers_fail _ _
  | succ levels ih =>
    intro m fits small
    rw [within_congr Nat.lt_succ_iff]
    exact Read.answers_delimited small
      (replay_fresh ih (sound_message schema options .full levels) options.malformedTags fits small)

end Decoding

namespace Message

/-- What the reference encoding of a message is read back as. -/
theorem merge_reference {schema : Schema} {m : Message} (options : DecodeOptions)
    (fits : m.Fits schema (schema.table m.type))
    (small : (Reference.message schema (schema.table m.type) m).length < 2 ^ 64) :
    ((schema.fresh m.type).merge schema options .full (schema.table m.type)
      (Reference.message schema (schema.table m.type) m)).toLogged.result =
      Decoding.within options.recursionLimit (m.depth ≤ options.recursionLimit.toNat) m :=
  Decoding.replay_fresh (Decoding.returns_message schema options options.recursionLimit.toNat)
    (Decoding.sound_message schema options .full _) options.malformedTags fits small 0

/-- A message that fits its type is written, and read back as it was if messages nest no deeper
in it than the limit. If they do, that is the error. -/
theorem merge_encode (schema : Schema) (options : DecodeOptions) (m : Message)
    (fits : m.Fits schema (schema.table m.type))
    (small : ∀ n, m.encodedSize schema (schema.table m.type) = .ok n → n < 2 ^ 64) :
    ∃ bytes, (m.encode schema (schema.table m.type)).result = .ok bytes ∧
      let decoded := (schema.fresh m.type).merge schema options .full (schema.table m.type) bytes
      (m.depth ≤ options.recursionLimit.toNat → decoded.result = .ok () ∧ decoded.message = m) ∧
      (options.recursionLimit.toNat < m.depth →
        decoded.result = .error (.recursionLimit options.recursionLimit)) := by
  have written := encode_of_fits fits
  have short : (Reference.message schema (schema.table m.type) m).length < 2 ^ 64 := by
    refine small _ ?_
    rw [← length_encode, written]
    rfl
  let levels := options.recursionLimit.toNat
  have read := Decoding.replay_fresh (Decoding.returns_message schema options levels)
    (Decoding.sound_message schema options .full levels) options.malformedTags fits short 0
  refine ⟨_, written, fun nests => ?_, fun tooDeep => ?_⟩
  · rw [Decoding.within_of_true nests] at read
    exact Decoded.toLogged_eq_ok_iff.1 read
  · rw [Decoding.within_of_false (Nat.not_le.2 tooDeep)] at read
    exact Decoded.toLogged_eq_error_iff.1 read

/-- Two levels of nodes, well within the default limit. -/
theorem merge_encode_node :
    Sample.node.Fits Sample.schema (Sample.schema.table 0) ∧
    (∀ n, Sample.node.encodedSize Sample.schema (Sample.schema.table 0) = .ok n → n < 2 ^ 64) ∧
    ∃ bytes, (Sample.node.encode Sample.schema (Sample.schema.table 0)).result = .ok bytes ∧
      let decoded :=
        (Sample.schema.fresh 0).merge Sample.schema {} .full (Sample.schema.table 0) bytes
      (Sample.node.depth ≤ 100 → decoded.result = .ok () ∧ decoded.message = Sample.node) ∧
      (100 < Sample.node.depth → decoded.result = .error (.recursionLimit 100)) := by
  have size : Sample.node.encodedSize Sample.schema (Sample.schema.table 0) = .ok 50 := by decide
  have small : ∀ n,
      Sample.node.encodedSize Sample.schema (Sample.schema.table 0) = .ok n → n < 2 ^ 64 := by
    intro n h
    rw [size] at h
    cases h
    decide
  exact ⟨Sample.node_fits, small, merge_encode Sample.schema {} Sample.node Sample.node_fits small⟩

end Message

end Protowire
