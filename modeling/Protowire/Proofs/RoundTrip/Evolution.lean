import Protowire.Proofs.RoundTrip.Carried

set_option autoImplicit false

/-!
# Evolving a message type

A type that declares more fields than another one, wherever it declares them, is read by it and
reads it. The fields of both come through, those of one alone are stepped over or stay at their
defaults.
-/

namespace Protowire

/-- The number of a field that both tables declare is that of like fields. -/
def FieldTable.Agrees (source target : FieldTable) : Prop := ∀ f ∈ source.slots, target.Admits f

/-- Each field of the table `narrow` has one like it in `wide`, under the same number. -/
def FieldTable.Extends (wide narrow : FieldTable) : Prop :=
  ∀ g ∈ narrow.slots, ∃ f ∈ wide.slots, f.number = g.number ∧ f.Alike g

namespace FieldTable

variable {wide narrow source target : FieldTable}

theorem Agrees.symm (h : source.Agrees target) : target.Agrees source := by
  intro g hg f hf same
  have alike := h f hf g hg same.symm
  exact ⟨alike.cardinality.symm, alike.kind.symm⟩

/-- A number stands for one field only, so the fields beside those of `narrow` have others. -/
theorem Extends.agrees (h : wide.Extends narrow) (consistent : wide.Consistent) :
    wide.Agrees narrow := by
  intro f hf g hg same
  obtain ⟨f', hf', number, alike⟩ := h g hg
  have first := consistent.slotByNumber?_eq_some_iff.2 ⟨hf, rfl⟩
  have second := consistent.slotByNumber?_eq_some_iff.2 ⟨hf', number.trans same.symm⟩
  obtain rfl : f = f' := Option.some.inj (first.symm.trans second)
  exact alike

end FieldTable

namespace Decoding

variable {schema : Schema} {policy : MalformedTagPolicy} {limit : UInt32} {levels : Nat}
  {nested : Nat → Read Message}

theorem skipped_delimit {content : Bytes} (small : (Varint.delimit content).length < 2 ^ 64) :
    Grammar.Skipped .delimited (Varint.delimit content) :=
  ⟨.delimited content, rfl, Varint.delimits_delimit (length_lt_of_delimit small)⟩

theorem skipped_element {k : Kind} {v : Value} (holds : k.Holds schema v)
    (small : (Reference.element schema k v).length < 2 ^ 64) :
    Grammar.Skipped k.wireType (Reference.element schema k v) := by
  cases holds with
  | @scalar t s variant =>
    obtain ⟨p, payload⟩ := Encoding.payload_of_holds variant
    rw [element_scalar payload] at small ⊢
    exact ⟨p, ScalarType.wireType_of_payload? payload, Payload.spells_encode small⟩
  | @message m fits =>
    rw [Reference.element] at small ⊢
    exact skipped_delimit small

/-- Whatever a record holds, and however deep it is, its wire type is enough to step over it. -/
theorem Written.skipped {field : FieldSlot} {w : WireType} {form : Form} {payload : Bytes}
    {u : Update} (written : Written schema field w form payload u)
    (small : payload.length < 2 ^ 64) : Grammar.Skipped w payload := by
  cases written with
  | single cardinality value => exact skipped_element value small
  | element cardinality delimited value => exact delimited ▸ skipped_element value small
  | packed cardinality scalar packable values => exact skipped_delimit small
  | entry cardinality key value => exact skipped_delimit small

theorem takes_carriedSlot (h : Returns schema limit levels nested) {target : Nat} {f : FieldSlot}
    {s : Slot} (holds : f.Holds schema s)
    (admitted : (schema.table target).Admits f)
    (small : (Reference.slot schema f s).length < 2 ^ 64)
    (nests : ∀ g ∈ (schema.table target).slots, f.number = g.number → s.depth ≤ levels) :
    ∀ p ∈ Reference.carriedSlot schema (schema.table target) f s, p.1 ≠ [] ∧
      (record schema policy nested (schema.table target)).Takes p.1 p.2 := by
  have built := schema.built_table target
  intro p hp
  unfold Reference.carriedSlot at hp
  split at hp
  · next g found =>
    obtain ⟨declared, number⟩ := built.consistent.slotByNumber?_eq_some_iff.1 found
    have alike := admitted g declared number.symm
    obtain ⟨q, hq, rfl⟩ := List.mem_map.1 hp
    rw [Reference.slot_congr number.symm alike] at small
    obtain ⟨w, form, payload, bytes, takes, updated⟩ :=
      @answers_update schema policy _ _ _ h _ _ (holds.congr alike) small q hq
    have shallow := (Reference.depth_records (holds.congr alike)).2
      (nests g declared number.symm) q hq
    rw [within_of_true shallow] at updated
    rw [bytes]
    exact ⟨Reference.tagged_ne_nil _ _,
      fun _ => answersAt_record declared takes (updated _)⟩
  · next unknown =>
    obtain ⟨q, hq, rfl⟩ := List.mem_map.1 hp
    rw [← Reference.flatMap_records] at small
    have short := Nat.lt_of_le_of_lt (length_le_length_flatMap hq Prod.fst) small
    obtain ⟨w, form, payload, bytes, written⟩ := exists_written holds q hq
    rw [bytes, List.length_append] at short
    have ignored : (schema.table target).Ignores ⟨f.number, w⟩ := by
      intro g hg same
      rw [built.consistent.slotByNumber?_eq_some_iff.2 ⟨hg, same⟩] at unknown
      cases unknown
    rw [bytes]
    exact ⟨Reference.tagged_ne_nil _ _, takes_record_ignored built (Tag.spells_encode _)
      (written.skipped (by omega)) ignored⟩

theorem takes_carried (h : Returns schema limit levels nested) {target : Nat}
    {fields : List FieldSlot} {ss : List Slot}
    (holds : List.Forall₂ (FieldSlot.Holds schema) fields ss)
    (admitted : ∀ f ∈ fields, (schema.table target).Admits f)
    (small : (Reference.slots schema fields ss).length < 2 ^ 64)
    (nests : ∀ p ∈ fields.zip ss, ∀ g ∈ (schema.table target).slots, p.1.number = g.number →
      p.2.depth ≤ levels) :
    ∀ p ∈ Reference.carried schema (schema.table target) fields ss, p.1 ≠ [] ∧
      (record schema policy nested (schema.table target)).Takes p.1 p.2 := by
  induction holds with
  | nil =>
    intro p hp
    cases hp
  | @cons field s fields ss hs hss ih =>
    rw [Reference.slots, List.length_append] at small
    intro p hp
    rcases List.mem_append.1 hp with first | later
    · exact takes_carriedSlot h hs (admitted field List.mem_cons_self) (by omega)
        (nests (field, s) List.mem_cons_self) p first
    · exact ih (fun f hf => admitted f (List.mem_cons_of_mem field hf)) (by omega)
        (fun q hq => nests q (List.mem_cons_of_mem _ hq)) p later

end Decoding

namespace Message

variable {schema : Schema} {target : Nat} {m : Message} {f g : FieldSlot} {s : Slot}

/-- `m'` has each of its fields from `m`, wherever the type of `m` declares it, and the default of
what that does not declare. -/
structure CarriedTo (schema : Schema) (m m' : Message) : Prop where
  length_eq : m'.slots.length = (schema.table m'.type).slots.length
  shared : ∀ f ∈ (schema.table m.type).slots, ∀ g ∈ (schema.table m'.type).slots,
    f.number = g.number → m'.slot g.index = m.slot f.index
  extra : ∀ g ∈ (schema.table m'.type).slots,
    (∀ f ∈ (schema.table m.type).slots, f.number ≠ g.number) →
      m'.slot g.index = Schema.freshSlot g

theorem mem_zip_iff (fits : m.Fits schema (schema.table m.type)) :
    (f, s) ∈ (schema.table m.type).slots.zip m.slots ↔
      f ∈ (schema.table m.type).slots ∧ s = m.slot f.index := by
  have consistent := (schema.built_table m.type).consistent
  constructor
  · intro mem
    obtain ⟨i, place⟩ := List.getElem?_of_mem mem
    obtain ⟨field, stored⟩ := List.getElem?_zip_eq_some.1 place
    refine ⟨List.mem_of_getElem? field, ?_⟩
    rw [consistent.index field, slot, stored]
    rfl
  · rintro ⟨declared, rfl⟩
    have field := consistent.getElem?_index declared
    have inside : f.index < m.slots.length := by
      cases fits with
      | slots holds =>
        rw [← holds.length_eq]
        exact (List.getElem?_eq_some_iff.1 field).1
    have stored : m.slots[f.index]? = some (m.slot f.index) := by
      rw [slot, List.getElem?_eq_getElem inside]
      rfl
    exact List.mem_of_getElem? (List.getElem?_zip_eq_some.2 ⟨field, stored⟩)

theorem slot_carry (declared : g ∈ (schema.table target).slots) :
    (m.carry schema target).slot g.index =
      (Slot.stored? (schema.table m.type).slots m.slots g.number).getD (Schema.freshSlot g) := by
  have place := (schema.built_table target).consistent.getElem?_index declared
  rw [slot, carry, List.getElem?_map, place]
  rfl

theorem carriedTo_carry (target : Nat) (fits : m.Fits schema (schema.table m.type)) :
    m.CarriedTo schema (m.carry schema target) where
  length_eq := List.length_map _
  shared := by
    intro f hf g (hg : g ∈ (schema.table target).slots) same
    have distinct := (schema.built_table m.type).consistent.distinct_numbers
    rw [slot_carry hg, ← same, Slot.stored?_of_mem distinct ((mem_zip_iff fits).2 ⟨hf, rfl⟩)]
    rfl
  extra := by
    intro g (hg : g ∈ (schema.table target).slots) other
    rw [slot_carry hg, Slot.stored?_eq_none other]
    rfl

theorem depth_slot_le (m : Message) (i : Nat) : (m.slot i).depth ≤ m.depth := by
  unfold slot
  cases stored : m.slots[i]? with
  | none => simp [Slot.depth]
  | some s => exact depth_le_iff.1 (Nat.le_refl _) s (List.mem_of_getElem? stored)

end Message

namespace Sample

def oldFields : List FieldSpec :=
  [⟨1, "name", .single, .scalar .string⟩, ⟨3, "child", .single, .message 0⟩]

/-- Both old fields, one of them under another name, between others. -/
def newFields : List FieldSpec :=
  [⟨2, "weights", .repeated, .scalar .sint32⟩, ⟨3, "child", .single, .message 0⟩,
    ⟨9, "heirs", .map (.scalar .string), .message 1⟩, ⟨1, "title", .single, .scalar .string⟩]

def oldTable : FieldTable := (FieldTable.build "old" oldFields).toOption.getD (.empty "old")

def newTable : FieldTable := (FieldTable.build "new" newFields).toOption.getD (.empty "new")

def grown : Schema := ⟨[oldTable, newTable], by
  intro t ht
  rcases List.mem_cons.1 ht with rfl | ht
  · exact ⟨"old", oldFields, rfl⟩
  · obtain rfl := List.mem_singleton.1 ht
    exact ⟨"new", newFields, rfl⟩⟩

def child : Message := ⟨0, [.single (.scalar (.string "c")), .unset]⟩

def oldMessage : Message := ⟨0, [.single (.scalar (.string "n")), .single (.message child)]⟩

def heirs (key : String) (heir : Message) : Slot :=
  .map [⟨.scalar (.string key), .message heir⟩]

def heir : Message := ⟨1, [.repeated [], .unset, .map [], .single (.scalar (.string "h"))]⟩

def parent : Message :=
  ⟨1, [.repeated [], .unset, heirs "k" heir, .single (.scalar (.string ""))]⟩

/-- Its heirs nest one level deeper than what the old type knows of it. -/
def newMessage : Message :=
  ⟨1, [.repeated [.scalar (.i32 0), .scalar (.i32 (-3))], .single (.message child),
    heirs "" parent, .single (.scalar (.string "n"))]⟩

theorem extends_grown : (grown.table 1).Extends (grown.table 0) := by
  unfold FieldTable.Extends
  decide

theorem slots_oldTable : (grown.table 0).slots =
    [⟨⟨1, by decide⟩, 0, "name", .single, .scalar .string⟩,
      ⟨⟨3, by decide⟩, 1, "child", .single, .message 0⟩] := rfl

theorem slots_newTable : (grown.table 1).slots =
    [⟨⟨2, by decide⟩, 0, "weights", .repeated, .scalar .sint32⟩,
      ⟨⟨3, by decide⟩, 1, "child", .single, .message 0⟩,
      ⟨⟨9, by decide⟩, 2, "heirs", .map (.scalar .string), .message 1⟩,
      ⟨⟨1, by decide⟩, 3, "title", .single, .scalar .string⟩] := rfl

theorem text_holds (s : String) : (Kind.scalar .string).Holds grown (.scalar (.string s)) :=
  .scalar rfl

theorem child_holds : (Kind.message 0).Holds grown (.message child) := by
  refine .message (m := child) (.slots ?_)
  change List.Forall₂ _ (grown.table 0).slots _
  rw [slots_oldTable]
  exact .cons (.single rfl (text_holds "c")) (.cons (.unset rfl rfl) .nil)

theorem oldMessage_fits : oldMessage.Fits grown (grown.table 0) := by
  refine .slots ?_
  rw [slots_oldTable]
  exact .cons (.single rfl (text_holds "n")) (.cons (.single rfl child_holds) .nil)

theorem heirs_hold {field : FieldSlot} (cardinality : field.cardinality = .map (.scalar .string))
    (kind : field.kind = .message 1) (key : String) {m : Message}
    (h : (Kind.message 1).Holds grown (.message m)) : field.Holds grown (heirs key m) := by
  refine .map cardinality ?_ ?_ (List.pairwise_singleton _ _)
  · simpa using text_holds key
  · simpa [kind] using h

theorem heir_holds : (Kind.message 1).Holds grown (.message heir) := by
  refine .message (m := heir) (.slots ?_)
  change List.Forall₂ _ (grown.table 1).slots _
  rw [slots_newTable]
  exact .cons (.repeated rfl (by simp)) (.cons (.unset rfl rfl)
    (.cons (.map rfl (by simp) (by simp) .nil) (.cons (.single rfl (text_holds "h")) .nil)))

theorem parent_holds : (Kind.message 1).Holds grown (.message parent) := by
  refine .message (m := parent) (.slots ?_)
  change List.Forall₂ _ (grown.table 1).slots _
  rw [slots_newTable]
  exact .cons (.repeated rfl (by simp)) (.cons (.unset rfl rfl)
    (.cons (heirs_hold rfl rfl "k" heir_holds) (.cons (.single rfl (text_holds "")) .nil)))

theorem newMessage_fits : newMessage.Fits grown (grown.table 1) := by
  have weight (v : Int32) : (Kind.scalar .sint32).Holds grown (.scalar (.i32 v)) := .scalar rfl
  refine .slots ?_
  rw [slots_newTable]
  exact .cons (.repeated rfl (by simp [weight])) (.cons (.single rfl child_holds)
    (.cons (heirs_hold rfl rfl "" parent_holds) (.cons (.single rfl (text_holds "n")) .nil)))

end Sample

namespace Message

variable {schema : Schema} {target : Nat} {m : Message}

theorem merge_reference_carried (options : DecodeOptions)
    (fits : m.Fits schema (schema.table m.type))
    (small : (Reference.message schema (schema.table m.type) m).length < 2 ^ 64)
    (agrees : (schema.table m.type).Agrees (schema.table target))
    (nests : ∀ f ∈ (schema.table m.type).slots, ∀ g ∈ (schema.table target).slots,
      f.number = g.number → (m.slot f.index).depth ≤ options.recursionLimit.toNat) :
    ((schema.fresh target).merge schema options .full (schema.table target)
      (Reference.message schema (schema.table m.type) m)).toLogged.result =
      .ok (m.carry schema target) := by
  let levels := options.recursionLimit.toNat
  have shallow : ∀ p ∈ (schema.table m.type).slots.zip m.slots,
      ∀ g ∈ (schema.table target).slots, p.1.number = g.number → p.2.depth ≤ levels := by
    rintro ⟨f, s⟩ mem g hg same
    obtain ⟨hf, rfl⟩ := (mem_zip_iff fits).1 mem
    exact nests f hf g hg same
  have built := (schema.built_table target).consistent
  have distinct := (schema.built_table m.type).consistent.distinct_numbers
  obtain ⟨type, ss⟩ := m
  cases fits with
  | slots holds =>
    simp only at holds small agrees distinct shallow ⊢
    rw [Reference.message] at small ⊢
    let pieces := Reference.carried schema (schema.table target) (schema.table type).slots ss
    have bytes : pieces.flatMap Prod.fst = Reference.slots schema (schema.table type).slots ss :=
      Reference.flatMap_carried built agrees
    have takes := @Decoding.takes_carried schema options.malformedTags _ _ _
      (Decoding.returns_message schema options levels) target _ _ holds agrees small shallow
    have values : (Decoding.transcript schema options .full (schema.table target)
        (pieces.flatMap Prod.fst)).values.result = .ok (pieces.map Prod.snd) := by
      refine (Read.values_untilEnd_flatMap _ _ (fun p => .ok p.2) takes 0).trans ?_
      exact List.mapM_pure
    have filled := @foldl_carried schema target _ _ _ Schema.freshSlot built holds agrees distinct
      fun _ _ _ _ _ => rfl
    have replayed := Decoding.replay_records (Decoding.sound_message schema options .full levels)
      options.malformedTags (schema.fresh target) (.ofBytes (pieces.flatMap Prod.fst))
    rw [← bytes]
    refine replayed.trans ?_
    refine (congrArg _ values).trans ?_
    exact congrArg Except.ok filled

/-- Written by its own table and read by that of the other one, the message becomes `m'`. -/
def Becomes (schema : Schema) (options : DecodeOptions) (m m' : Message) : Prop :=
  ∃ bytes, (m.encode schema (schema.table m.type)).result = .ok bytes ∧
    let decoded :=
      (schema.fresh m'.type).merge schema options .full (schema.table m'.type) bytes
    decoded.result = .ok () ∧ decoded.message = m'

/-- A table reads what another one that agrees with it has written, up to the fields that both
declare, if these do not nest too deep. -/
theorem becomes_carry (options : DecodeOptions) (fits : m.Fits schema (schema.table m.type))
    (small : ∀ n, m.encodedSize schema (schema.table m.type) = .ok n → n < 2 ^ 64)
    (agrees : (schema.table m.type).Agrees (schema.table target))
    (nests : ∀ f ∈ (schema.table m.type).slots, ∀ g ∈ (schema.table target).slots,
      f.number = g.number → (m.slot f.index).depth ≤ options.recursionLimit.toNat) :
    m.Becomes schema options (m.carry schema target) := by
  have short := small _ (encodedSize_of_fits fits)
  have read := merge_reference_carried options fits short agrees nests
  exact ⟨_, encode_of_fits fits, Decoded.toLogged_eq_ok_iff.1 read⟩

/-- Between a type and one that declares more fields, messages go both ways. The old one gets all
of its fields out of a new message, whatever the others hold, and the new one gets the fields of an
old message with defaults for the others. -/
theorem becomes_of_extends (schema : Schema) (options : DecodeOptions) {old new : Nat}
    (extension : (schema.table new).Extends (schema.table old)) :
    (∀ m : Message, m.type = new → m.Fits schema (schema.table new) →
      (∀ n, m.encodedSize schema (schema.table new) = .ok n → n < 2 ^ 64) →
      (∀ f ∈ (schema.table new).slots, ∀ g ∈ (schema.table old).slots,
        f.number = g.number → (m.slot f.index).depth ≤ options.recursionLimit.toNat) →
      ∃ m', m'.type = old ∧ m.CarriedTo schema m' ∧ m.Becomes schema options m') ∧
    (∀ m : Message, m.type = old → m.Fits schema (schema.table old) →
      (∀ n, m.encodedSize schema (schema.table old) = .ok n → n < 2 ^ 64) →
      m.depth ≤ options.recursionLimit.toNat →
      ∃ m', m'.type = new ∧ m.CarriedTo schema m' ∧ m.Becomes schema options m') := by
  have agrees := extension.agrees (schema.built_table new).consistent
  constructor
  · rintro m rfl fits small nests
    exact ⟨m.carry schema old, rfl, carriedTo_carry old fits,
      becomes_carry options fits small agrees nests⟩
  · rintro m rfl fits small nests
    exact ⟨m.carry schema new, rfl, carriedTo_carry new fits,
      becomes_carry options fits small agrees.symm fun f _ _ _ _ =>
        Nat.le_trans (m.depth_slot_le f.index) nests⟩

/-- Both ways under a limit that the heirs in the new message exceed. -/
theorem becomes_of_extends_grown :
    let options : DecodeOptions := { recursionLimit := 1 }
    (Sample.grown.table 1).Extends (Sample.grown.table 0) ∧
      options.recursionLimit.toNat < Sample.newMessage.depth ∧
      (∃ m', m'.type = 0 ∧ Sample.newMessage.CarriedTo Sample.grown m' ∧
        Sample.newMessage.Becomes Sample.grown options m') ∧
      ∃ m', m'.type = 1 ∧ Sample.oldMessage.CarriedTo Sample.grown m' ∧
        Sample.oldMessage.Becomes Sample.grown options m' := by
  intro options
  have evolved := becomes_of_extends Sample.grown options Sample.extends_grown
  have newSize : Sample.newMessage.encodedSize Sample.grown (Sample.grown.table 1) = .ok 26 := by
    decide
  have oldSize : Sample.oldMessage.encodedSize Sample.grown (Sample.grown.table 0) = .ok 8 := by
    decide
  have newSmall : ∀ n, Sample.newMessage.encodedSize Sample.grown (Sample.grown.table 1) = .ok n →
      n < 2 ^ 64 := Result.forall_ok_of_eq newSize (by decide)
  have oldSmall : ∀ n, Sample.oldMessage.encodedSize Sample.grown (Sample.grown.table 0) = .ok n →
      n < 2 ^ 64 := Result.forall_ok_of_eq oldSize (by decide)
  exact ⟨Sample.extends_grown, by decide,
    evolved.1 _ rfl Sample.newMessage_fits newSmall (by decide),
    evolved.2 _ rfl Sample.oldMessage_fits oldSmall (by decide)⟩

end Message

end Protowire
