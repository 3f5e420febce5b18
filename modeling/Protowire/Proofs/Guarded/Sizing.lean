import Protowire.Proofs.Encoding.Size
import Protowire.Proofs.Guarded.Encoding

set_option autoImplicit false

/-!
# Sizes that stay within words

The bulk of a message is its size, where a part that cannot be sized counts as far as it can be.
It bounds every sum that sizing comes to on the way, up to where a misshapen part is met. So sizing
meets no fault as long as the bulk is a word.
-/

namespace Protowire

namespace Encoding

variable (schema : Schema)

def singleBulk (number : FieldNumber) (k : Kind) (v : Value) (element : Nat) : Nat :=
  match k.omits v with
  | .ok true => 0
  | _ => (Tag.mk number k.wireType).size + element

mutual

def elementBulk (k : Kind) : Value → Nat
  | .scalar s =>
    match k.payload (.scalar s) with
    | .ok p => p.size
    | .error _ => 0
  | .message m =>
    match k with
    | .message type => Varint.delimitedSize (messageBulk (schema.table type) m)
    | .scalar _ => 0

def elementsBulk (lead : Nat) (k : Kind) : List Value → Nat
  | [] => 0
  | v :: vs => lead + elementBulk k v + elementsBulk lead k vs

def entryBulk (keyKind kind : Kind) : Entry → Nat
  | ⟨key, value⟩ => singleBulk .key keyKind key (elementBulk keyKind key) +
      singleBulk .value kind value (elementBulk kind value)

def entriesBulk (number : FieldNumber) (keyKind kind : Kind) : List Entry → Nat
  | [] => 0
  | e :: es => (Tag.mk number .delimited).size + Varint.delimitedSize (entryBulk keyKind kind e) +
      entriesBulk number keyKind kind es

def slotBulk (field : FieldSlot) : Slot → Nat
  | .unset => 0
  | .single v =>
    match field.cardinality with
    | .single => singleBulk field.number field.kind v (elementBulk field.kind v)
    | _ => 0
  | .repeated vs =>
    match field.cardinality with
    | .repeated =>
      let tag : Tag := ⟨field.number, .delimited⟩
      if vs.isEmpty then 0
      else if field.kind.isPackable then
        tag.size + Varint.delimitedSize (elementsBulk 0 field.kind vs)
      else elementsBulk tag.size field.kind vs
    | _ => 0
  | .map es =>
    match field.cardinality with
    | .map keyKind => entriesBulk field.number keyKind field.kind es
    | _ => 0

def slotsBulk : List FieldSlot → List Slot → Nat
  | field :: fields, slot :: slots => slotBulk field slot + slotsBulk fields slots
  | _, _ => 0

def messageBulk (table : FieldTable) : Message → Nat
  | ⟨_, slots⟩ => slotsBulk table.slots slots

end

end Encoding

/-- What the message comes to when it is sized by `table`, as far as it can be. -/
def Message.bulk (schema : Schema) (table : FieldTable) (m : Message) : Nat :=
  Encoding.messageBulk schema table m

namespace Guarded

theorem tagSize_eq (number : FieldNumber) (w : WireType) :
    tagSize number w = pure (Tag.mk number w).size := by
  rw [tagSize, Checked.lift_bind (Tag.assert_eq number w)]

/-- `x` is the size `r`, as long as the bulk is a word, and the bulk is the size if there is one. -/
structure Sizes (x : Checked Nat) (r : Except Error Nat) (bulk : Nat) : Prop where
  checked : bulk < 2 ^ 64 → x = .ok (.ofExcept r)
  exact : ∀ n, r = .ok n → bulk = n

namespace Sizes

variable {x y : Checked Nat} {r s : Except Error Nat} {a b : Nat}

theorem pure (n : Nat) : Sizes (Pure.pure n) (.ok n) n where
  checked _ := rfl
  exact n' same := by
    cases same
    rfl

theorem error (e : Error) (bulk : Nat) :
    Sizes (liftM (Except.error e : Except Error Nat)) (.error e) bulk where
  checked _ := rfl
  exact n same := by cases same

/-- The bulk of the first part is a summand of the whole, and the second part may count on it. -/
theorem bind {f : Nat → Checked Nat} {g : Nat → Except Error Nat} (hx : Sizes x r a) (le : a ≤ b)
    (hf : Sizes (f a) (g a) b) : Sizes (x >>= f) (r >>= g) b where
  checked small := by
    apply Checked.bind_ofExcept (hx.checked (Nat.lt_of_le_of_lt le small))
    intro n value
    obtain rfl := hx.exact n value
    exact hf.checked small
  exact n same := by
    obtain ⟨n', value, same⟩ := Result.bind_eq_ok_iff.1 same
    obtain rfl := hx.exact n' value
    exact hf.exact n same

theorem word (a b : Nat) : Sizes (liftM (Word.add a b)) (.ok (a + b)) (a + b) where
  checked small := by
    rw [Word.add_eq small]
    rfl
  exact n same := by
    cases same
    rfl

theorem add (hx : Sizes x r a) (hy : Sizes y s b) :
    Sizes (do let n ← x; Word.add n (← y)) (do return (← r) + (← s)) (a + b) :=
  hx.bind (Nat.le_add_right a b) (hy.bind (Nat.le_add_left b a) (word a b))

/-- One part more, behind `soFar` bytes. -/
theorem next {f : Nat → Checked Nat} {soFar : Nat} (hx : Sizes x r a)
    (hf : Sizes (f (soFar + a)) ((soFar + a + ·) <$> s) (soFar + a + b)) :
    Sizes (do f (← Word.add soFar (← x))) ((soFar + ·) <$> do return (← r) + (← s))
      (soFar + (a + b)) := by
  have inOrder : ((soFar + ·) <$> do return (← r) + (← s) : Except Error Nat) =
      (do
        let n ← r
        let all ← Except.ok (soFar + n)
        (all + ·) <$> s) := by
    cases r with
    | error e => rfl
    | ok n => cases s <;> simp [Nat.add_assoc]
  rw [inOrder, ← Nat.add_assoc]
  apply hx.bind (by omega)
  exact (word soFar a).bind (Nat.le_add_right _ _) hf

theorem length (hx : Sizes x r a) :
    Sizes (do lengthSize (← x)) (do return Varint.delimitedSize (← r)) (Varint.delimitedSize a) :=
  hx.bind (Nat.le_add_left _ _) (word _ _)

theorem framed (number : FieldNumber) (hx : Sizes x r a) :
    Sizes (framedSize number x)
      (do return (Tag.mk number .delimited).size + Varint.delimitedSize (← r))
      ((Tag.mk number .delimited).size + Varint.delimitedSize a) := by
  rw [framedSize, tagSize_eq, Checked.pure_bind]
  have payload : Sizes (lengthSize a) (.ok (Varint.delimitedSize a)) (Varint.delimitedSize a) :=
    word _ _
  apply hx.bind
  · exact Nat.le_trans (Nat.le_add_left _ _) (Nat.le_add_left _ _)
  · change Sizes _ (Except.ok (Varint.delimitedSize a) >>= fun n => .ok (_ + n)) _
    exact payload.bind (Nat.le_add_left _ _) (word _ _)

theorem payload (p : Payload) : Sizes (payloadSize p) (.ok p.size) p.size := by
  cases p with
  | delimited content => exact word _ _
  | _ => exact pure _

theorem single (number : FieldNumber) (k : Kind) (v : Value) (hx : Sizes x r a) :
    Sizes (singleSize number k v x) (Encoding.singleSize number k v r)
      (Encoding.singleBulk number k v a) := by
  rw [singleSize, Encoding.singleSize, Encoding.singleBulk]
  cases k.omits v with
  | error e => exact error e _
  | ok omitted =>
    cases omitted with
    | true =>
      rw [Checked.ok_bind]
      exact pure 0
    | false =>
      rw [Checked.ok_bind, tagSize_eq, Checked.pure_bind]
      exact hx.bind (Nat.le_add_left _ _) (word _ _)

end Sizes

theorem zero_add_map (r : Except Error Nat) : (0 + ·) <$> r = r := by
  cases r <;> simp

variable (schema : Schema)

mutual

theorem sizes_element (k : Kind) (v : Value) :
    Sizes (elementSize schema k v) (Encoding.elementSize schema k v)
      (Encoding.elementBulk schema k v) := by
  cases v with
  | scalar s =>
    rw [elementSize, Encoding.elementSize, Encoding.elementBulk]
    cases k.payload (.scalar s) with
    | error e => exact .error e _
    | ok p =>
      rw [Checked.ok_bind]
      exact .payload p
  | message m =>
    cases k with
    | scalar t => exact .error _ _
    | message type => exact (sizes_message (schema.table type) m).length

theorem sizes_elements (lead : Nat) (k : Kind) (soFar : Nat) (vs : List Value) :
    Sizes (elementsSize schema lead k soFar vs)
      ((soFar + ·) <$> Encoding.elementsSize schema lead k vs)
      (soFar + Encoding.elementsBulk schema lead k vs) := by
  cases vs with
  | nil => exact .pure soFar
  | cons v vs =>
    have others := sizes_elements lead k (soFar + lead + Encoding.elementBulk schema k v) vs
    have inOrder : (soFar + ·) <$> Encoding.elementsSize schema lead k (v :: vs) =
        (do
          let led ← Except.ok (soFar + lead)
          (led + ·) <$> do
            return (← Encoding.elementSize schema k v) +
              (← Encoding.elementsSize schema lead k vs)) := by
      rw [Encoding.elementsSize]
      cases Encoding.elementSize schema k v with
      | error e => rfl
      | ok n => cases Encoding.elementsSize schema lead k vs <;> simp [Nat.add_assoc]
    rw [elementsSize, Encoding.elementsBulk, inOrder, Nat.add_assoc lead, ← Nat.add_assoc soFar]
    apply (Sizes.word soFar lead).bind (Nat.le_add_right _ _)
    exact (sizes_element k v).next others

theorem sizes_entry (keyKind kind : Kind) (e : Entry) :
    Sizes (entrySize schema keyKind kind e) (Encoding.entrySize schema keyKind kind e)
      (Encoding.entryBulk schema keyKind kind e) := by
  cases e with
  | mk key value =>
    exact (Sizes.single .key keyKind key (sizes_element keyKind key)).add
      (.single .value kind value (sizes_element kind value))

theorem sizes_entries (number : FieldNumber) (keyKind kind : Kind) (soFar : Nat)
    (es : List Entry) :
    Sizes (entriesSize schema number keyKind kind soFar es)
      ((soFar + ·) <$> Encoding.entriesSize schema number keyKind kind es)
      (soFar + Encoding.entriesBulk schema number keyKind kind es) := by
  cases es with
  | nil => exact .pure soFar
  | cons e es =>
    have others := sizes_entries number keyKind kind
      (soFar + ((Tag.mk number .delimited).size +
        Varint.delimitedSize (Encoding.entryBulk schema keyKind kind e))) es
    have all := Sizes.next (f := fun n => entriesSize schema number keyKind kind n es)
      ((sizes_entry keyKind kind e).framed number) others
    simp only [bind_assoc, pure_bind] at all
    exact all

theorem sizes_slot (field : FieldSlot) (slot : Slot) :
    Sizes (slotSize schema field slot) (Encoding.slotSize schema field slot)
      (Encoding.slotBulk schema field slot) := by
  cases slot with
  | unset => exact .pure 0
  | single v =>
    simp only [slotSize, Encoding.slotSize, Encoding.slotBulk]
    cases field.cardinality with
    | single => exact .single field.number field.kind v (sizes_element field.kind v)
    | _ => exact .error _ _
  | repeated vs =>
    simp only [slotSize, Encoding.slotSize, Encoding.slotBulk]
    cases field.cardinality with
    | repeated =>
      have packed := sizes_elements 0 field.kind 0 vs
      have unpacked := sizes_elements (Tag.mk field.number .delimited).size field.kind 0 vs
      rw [zero_add_map, Nat.zero_add] at packed unpacked
      dsimp only
      split
      · exact .pure 0
      · split
        · exact packed.framed field.number
        · rw [tagSize_eq, Checked.pure_bind]
          exact unpacked
    | _ => exact .error _ _
  | map es =>
    simp only [slotSize, Encoding.slotSize, Encoding.slotBulk]
    cases field.cardinality with
    | map keyKind =>
      have all := sizes_entries field.number keyKind field.kind 0 es
      rw [zero_add_map, Nat.zero_add] at all
      exact all
    | _ => exact .error _ _

theorem sizes_slots (soFar : Nat) (fields : List FieldSlot) (slots : List Slot) :
    Sizes (slotsSize schema soFar fields slots)
      ((soFar + ·) <$> Encoding.slotsSize schema fields slots)
      (soFar + Encoding.slotsBulk schema fields slots) := by
  cases fields with
  | nil => cases slots <;> exact .pure soFar
  | cons field fields =>
    cases slots with
    | nil => exact .pure soFar
    | cons slot slots =>
      have others := sizes_slots (soFar + Encoding.slotBulk schema field slot) fields slots
      exact (sizes_slot field slot).next others

theorem sizes_message (table : FieldTable) (m : Message) :
    Sizes (messageSize schema table m) (Encoding.messageSize schema table m)
      (Encoding.messageBulk schema table m) := by
  cases m with
  | mk type slots =>
    have whole := sizes_slots 0 table.slots slots
    rw [zero_add_map, Nat.zero_add] at whole
    exact whole

end

end Guarded

end Protowire
