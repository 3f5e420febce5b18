import Protowire.Proofs.Encoding.Size
import Protowire.Proofs.Message
import Protowire.Proofs.Payload

set_option autoImplicit false

/-!
# The reference encoding

Here nothing is sized in advance: a nested message, a packed list and a map entry are written on
their own first, and get the length that they turn out to have. What the encoder writes for a
message that fits is the same.
-/

namespace Protowire

/-- Whether the value is the default of the kind. A message that is there is not. -/
def Kind.isDefault : Kind → Value → Bool
  | .scalar t, .scalar s => s = t.default
  | _, _ => false

namespace Reference

variable (schema : Schema)

/-- A value that reads `content`, behind its tag; nothing for a default. -/
def single (number : FieldNumber) (k : Kind) (v : Value) (content : Bytes) : Bytes :=
  if k.isDefault v then [] else (Tag.mk number k.wireType).encode ++ content

mutual

/-- A value without its tag. -/
def element (k : Kind) : Value → Bytes
  | .scalar s =>
    match k with
    | .scalar t => ((t.payload? s).map Payload.encode).getD []
    | .message _ => []
  | .message m =>
    match k with
    | .message type => Varint.delimit (message (schema.table type) m)
    | .scalar _ => []

/-- Values with `lead` in front of each. -/
def elements (lead : Bytes) (k : Kind) : List Value → Bytes
  | [] => []
  | v :: vs => lead ++ element k v ++ elements lead k vs

def entry (keyKind kind : Kind) : Entry → Bytes
  | ⟨key, value⟩ =>
    single .key keyKind key (element keyKind key) ++ single .value kind value (element kind value)

def entries (number : FieldNumber) (keyKind kind : Kind) : List Entry → Bytes
  | [] => []
  | e :: es =>
    (Tag.mk number .delimited).encode ++ Varint.delimit (entry keyKind kind e) ++
      entries number keyKind kind es

def slot (field : FieldSlot) : Slot → Bytes
  | .unset => []
  | .single v => single field.number field.kind v (element field.kind v)
  | .repeated vs =>
    let tag := (Tag.mk field.number .delimited).encode
    if vs.isEmpty then []
    else if field.kind.isPackable then tag ++ Varint.delimit (elements [] field.kind vs)
    else elements tag field.kind vs
  | .map es =>
    match field.cardinality with
    | .map keyKind => entries field.number keyKind field.kind es
    | _ => []

def slots : List FieldSlot → List Slot → Bytes
  | field :: fields, s :: ss => slot field s ++ slots fields ss
  | _, _ => []

def message (table : FieldTable) : Message → Bytes
  | ⟨_, ss⟩ => slots table.slots ss

end

end Reference

/-- Nothing of the slot is written. -/
def FieldSlot.isBlank (field : FieldSlot) : Slot → Bool
  | .unset => true
  | .single v => field.kind.isDefault v
  | .repeated vs => vs.isEmpty
  | .map es => es.isEmpty

namespace Encoding

open Reference

variable {schema : Schema}

theorem payload_of_holds {t : ScalarType} {s : Scalar} (h : s.variant = t.variant) :
    ∃ p, t.payload? s = some p :=
  Option.isSome_iff_exists.1 (ScalarType.isSome_payload?_iff.2 h)

/-- The two ways to recognise a default, by its bits and by its value, agree. -/
theorem omits_of_holds {k : Kind} {v : Value} (h : k.Holds schema v) :
    k.omits v = .ok (k.isDefault v) := by
  cases h with
  | message h => rfl
  | @scalar t s h =>
    obtain ⟨p, hp⟩ := payload_of_holds h
    have zero : p.isZero = decide (s = t.default) := by
      rw [Bool.eq_iff_iff, decide_eq_true_iff]
      exact ScalarType.isZero_payload? hp
    have payload : (Kind.scalar t).payload (.scalar s) = .ok p := by simp [Kind.payload, hp]
    cases t
    case string =>
      cases s with
      | string text =>
        change Except.ok text.isEmpty = .ok (decide (Scalar.string text = .string ""))
        rw [Except.ok.injEq, Bool.eq_iff_iff]
        simp
      | _ => cases h
    case bytes =>
      cases s with
      | bytes content =>
        change Except.ok content.isEmpty = .ok (decide (Scalar.bytes content = .bytes []))
        rw [Except.ok.injEq, Bool.eq_iff_iff]
        simp
      | _ => cases h
    all_goals
      simp only [Kind.omits, Kind.wireType, ScalarType.wireType, payload, Kind.isDefault, ← zero]
      rfl

theorem writeSingle_of_holds (number : FieldNumber) {k : Kind} {v : Value} {x : Logged Bytes}
    {content : Bytes} (h : k.Holds schema v) (hx : x.result = .ok content) :
    (writeSingle number k v x).result = .ok (single number k v content) := by
  simp only [writeSingle, Logged.result_bind, Logged.result_liftM, omits_of_holds h,
    Result.ok_bind, single]
  cases k.isDefault v with
  | true => rfl
  | false => simp [hx]

mutual

theorem writeElement_of_holds {k : Kind} (v : Value) (h : k.Holds schema v) :
    (writeElement schema k v).result = .ok (element schema k v) := by
  cases v with
  | scalar s =>
    cases h with
    | @scalar t _ h =>
      obtain ⟨p, hp⟩ := payload_of_holds h
      simp [writeElement, element, Kind.payload, hp]
  | message m =>
    cases h with
    | message h =>
      have content := writeMessage_of_fits m h
      have size := length_writeMessage schema (schema.table m.type) m
      rw [content] at size
      simp [writeElement, element, content, ← size, Varint.delimit]

theorem writeElements_of_holds (lead : Bytes) {k : Kind} (vs : List Value)
    (h : ∀ v ∈ vs, k.Holds schema v) :
    (writeElements schema lead k vs).result = .ok (elements schema lead k vs) := by
  cases vs with
  | nil => rfl
  | cons v vs =>
    have first := writeElement_of_holds v (h v (by simp))
    have others := writeElements_of_holds lead vs fun v hv => h v (by simp [hv])
    simp [writeElements, elements, first, others]

theorem writeEntry_of_holds {keyKind kind : Kind} (e : Entry) (hk : keyKind.Holds schema e.key)
    (hv : kind.Holds schema e.value) :
    (writeEntry schema keyKind kind e).result = .ok (entry schema keyKind kind e) := by
  cases e with
  | mk key value =>
    have first := writeSingle_of_holds .key hk (writeElement_of_holds key hk)
    have second := writeSingle_of_holds .value hv (writeElement_of_holds value hv)
    simp [writeEntry, entry, first, second]

theorem writeEntries_of_holds (number : FieldNumber) {keyKind kind : Kind} (es : List Entry)
    (hk : ∀ e ∈ es, keyKind.Holds schema e.key) (hv : ∀ e ∈ es, kind.Holds schema e.value) :
    (writeEntries schema number keyKind kind es).result =
      .ok (entries schema number keyKind kind es) := by
  cases es with
  | nil => rfl
  | cons e es =>
    have content := writeEntry_of_holds e (hk e (by simp)) (hv e (by simp))
    have size := length_writeEntry schema keyKind kind e
    rw [content] at size
    have others := writeEntries_of_holds number es
      (fun e he => hk e (by simp [he])) (fun e he => hv e (by simp [he]))
    simp [writeEntries, entries, content, others, ← size, Varint.delimit]

theorem writeSlot_of_holds {field : FieldSlot} (s : Slot) (h : field.Holds schema s) :
    (writeSlot schema field s).result = .ok (slot schema field s) := by
  cases s with
  | unset => rfl
  | single v =>
    cases h with
    | single cardinality hv =>
      simp only [writeSlot, cardinality, slot]
      exact writeSingle_of_holds _ hv (writeElement_of_holds v hv)
  | repeated vs =>
    cases h with
    | repeated cardinality hvs =>
      have packed := writeElements_of_holds [] vs hvs
      have size := length_writeElements schema [] field.kind vs
      rw [packed] at size
      have unpacked := writeElements_of_holds (Tag.mk field.number .delimited).encode vs hvs
      simp only [writeSlot, cardinality, slot]
      split
      · rfl
      · split
        · simp at size
          simp [packed, ← size, Varint.delimit]
        · exact unpacked
  | map es =>
    cases h with
    | map cardinality hk hv sorted =>
      simp only [writeSlot, cardinality, slot]
      exact writeEntries_of_holds field.number es hk hv

theorem writeSlots_of_holds {fields : List FieldSlot} (ss : List Slot)
    (h : List.Forall₂ (FieldSlot.Holds schema) fields ss) :
    (writeSlots schema fields ss).result = .ok (slots schema fields ss) := by
  cases h with
  | nil => rfl
  | @cons field s fields ss hs hss =>
    have first := writeSlot_of_holds s hs
    have others := writeSlots_of_holds ss hss
    simp [writeSlots, slots, first, others]

theorem writeMessage_of_fits {table : FieldTable} (m : Message) (h : m.Fits schema table) :
    (writeMessage schema table m).result = .ok (message schema table m) := by
  cases m with
  | mk type ss =>
    cases h with
    | slots hss => exact writeSlots_of_holds ss hss

end

end Encoding

namespace Reference

variable {schema : Schema}

theorem encode_tag_ne_nil (t : Tag) : t.encode ≠ [] := Varint.encode_ne_nil _

theorem tagged_ne_nil (t : Tag) (payload : Bytes) : t.encode ++ payload ≠ [] :=
  List.append_ne_nil_of_left_ne_nil (encode_tag_ne_nil t) payload

theorem elements_eq_nil_iff {lead : Bytes} {k : Kind} {vs : List Value} (h : lead ≠ []) :
    elements schema lead k vs = [] ↔ vs = [] := by
  cases vs <;> simp [elements, h]

theorem slot_eq_nil_iff {field : FieldSlot} {s : Slot} (h : field.Holds schema s) :
    slot schema field s = [] ↔ field.isBlank s = true := by
  have tag := encode_tag_ne_nil (Tag.mk field.number .delimited)
  cases h with
  | unset cardinality kind => simp [slot, FieldSlot.isBlank]
  | @single _ v cardinality hv =>
    have tag := encode_tag_ne_nil (Tag.mk field.number field.kind.wireType)
    cases hd : field.kind.isDefault v <;> simp [slot, single, FieldSlot.isBlank, hd, tag]
  | @repeated _ vs cardinality hvs =>
    simp only [slot, FieldSlot.isBlank]
    split
    · next empty => simp [empty]
    · next nonempty =>
      split
      · simp [nonempty, tag]
      · rw [elements_eq_nil_iff tag]
        simp
  | @map _ key es cardinality hk hv sorted =>
    cases es <;> simp [slot, cardinality, FieldSlot.isBlank, entries, tag]

theorem slots_eq_nil_iff {fields : List FieldSlot} {ss : List Slot}
    (h : List.Forall₂ (FieldSlot.Holds schema) fields ss) :
    slots schema fields ss = [] ↔
      ∀ (i : Nat) (field : FieldSlot), fields[i]? = some field →
        field.isBlank (ss[i]?.getD .unset) = true := by
  induction h with
  | nil => simp [slots]
  | @cons field s fields ss hs hss ih =>
    rw [slots, List.append_eq_nil_iff, slot_eq_nil_iff hs, ih]
    constructor
    · rintro ⟨first, others⟩ (_ | i) f hf
      · cases hf
        exact first
      · exact others i f hf
    · intro all
      exact ⟨all 0 field rfl, fun i f hf => all (i + 1) f hf⟩

end Reference

namespace Message

variable {schema : Schema} {table : FieldTable} {m : Message}

theorem encode_of_fits (fits : m.Fits schema table) :
    (m.encode schema table).result = .ok (Reference.message schema table m) := by
  have written := Encoding.writeMessage_of_fits m fits
  have sized := Encoding.length_writeMessage schema table m
  rw [written] at sized
  simp [encode, encodedSize, ← sized, written]

/-- The size worked out in advance is that of the reference encoding. -/
theorem encodedSize_of_fits (fits : m.Fits schema table) :
    m.encodedSize schema table = .ok (Reference.message schema table m).length := by
  rw [← length_encode, encode_of_fits fits]
  rfl

/-- What is written for a message that fits is the reference encoding, in which every length is
that of finished bytes. Nothing is written exactly if nothing is there but defaults. -/
theorem encode_eq_reference (fits : m.Fits schema table) :
    (m.encode schema table).result = .ok (Reference.message schema table m) ∧
    ((m.encode schema table).result = .ok [] ↔
      ∀ (i : Nat) (field : FieldSlot), table.slots[i]? = some field →
        field.isBlank (m.slot i) = true) := by
  refine ⟨encode_of_fits fits, ?_⟩
  rw [encode_of_fits fits, Except.ok.injEq]
  cases m with
  | mk type ss =>
    cases fits with
    | slots hss => exact Reference.slots_eq_nil_iff hss

/-- A node with nested messages in a single field and in a map. -/
theorem encode_node_eq_reference :
    Sample.node.Fits Sample.schema (Sample.schema.table 0) ∧
    (Sample.node.encode Sample.schema (Sample.schema.table 0)).result =
      .ok (Reference.message Sample.schema (Sample.schema.table 0) Sample.node) ∧
    ((Sample.node.encode Sample.schema (Sample.schema.table 0)).result = .ok [] ↔
      ∀ (i : Nat) (field : FieldSlot), (Sample.schema.table 0).slots[i]? = some field →
        field.isBlank (Sample.node.slot i) = true) :=
  ⟨Sample.node_fits, encode_eq_reference Sample.node_fits⟩

/-- A negative zero is no default. -/
example : Reference.message Sample.schema (Sample.schema.table 0) Sample.leaf =
    [0xA1, 0x06, 0, 0, 0, 0, 0, 0, 0, 0x80] := by decide

end Message

end Protowire
