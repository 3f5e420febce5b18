import Protowire.Encoding
import Protowire.Proofs.Guarded

set_option autoImplicit false

/-!
# Guarded encoding

Sizing adds word by word, in the order in which the parts of a message stand, and each tag that is
sized or written is an assertion about its number. At the end the bytes written are held against
the bytes that were sized.
-/

namespace Protowire

/-- A computation of the encoder, with its guarded steps. -/
def Checked (α : Type) : Type := Except Fault (Logged α)

namespace Checked

variable {α β : Type}

protected def pure (a : α) : Checked α := .ok (pure a)

protected def bind (x : Checked α) (f : α → Checked β) : Checked β :=
  match x with
  | .error fault => .error fault
  | .ok ⟨.error e, log⟩ => .ok ⟨.error e, log⟩
  | .ok ⟨.ok a, log⟩ =>
    match f a with
    | .error fault => .error fault
    | .ok next => .ok ⟨next.result, log ++ next.log⟩

instance : Monad Checked where
  pure := Checked.pure
  bind := Checked.bind

instance : MonadLift (Except Fault) Checked where
  monadLift x := x.map pure

instance : MonadLift (Except Error) Checked where
  monadLift r := .ok (.ofExcept r)

def emit (e : Event) : Checked Unit := .ok (.emit e)

/-- Where each step meets no fault the computation meets none. -/
theorem bind_eq {x : Checked α} {y : Logged α} {f : α → Checked β} {g : α → Logged β}
    (hx : x = .ok y) (hf : ∀ a, y.result = .ok a → f a = .ok (g a)) :
    x >>= f = (.ok (y >>= g) : Except Fault (Logged β)) := by
  subst hx
  obtain ⟨result, log⟩ := y
  cases result with
  | error e => rfl
  | ok a =>
    change (match f a with | .error fault => _ | .ok next => _) = _
    rw [hf a rfl]
    rfl

@[simp] theorem pure_bind (a : α) (f : α → Checked β) : (pure a >>= f : Checked β) = f a := by
  change (match f a with | .error fault => _ | .ok next => _) = _
  cases f a with
  | error fault => rfl
  | ok next => rfl

theorem lift_bind {x : Except Fault α} {a : α} (h : x = .ok a) (f : α → Checked β) :
    (liftM x >>= f : Checked β) = f a := by
  rw [h]
  exact pure_bind a f

@[simp] theorem ok_bind (a : α) (f : α → Checked β) :
    (liftM (Except.ok a : Except Error α) >>= f : Checked β) = f a := pure_bind a f

/-- Between results nothing is logged. -/
theorem bind_ofExcept {x : Checked α} {r : Except Error α} {f : α → Checked β}
    {g : α → Except Error β} (hx : x = .ok (.ofExcept r))
    (hf : ∀ a, r = .ok a → f a = .ok (.ofExcept (g a))) : x >>= f = .ok (.ofExcept (r >>= g)) := by
  have both := bind_eq (g := fun a => .ofExcept (g a)) hx hf
  rw [both]
  cases r <;> rfl

end Checked

namespace Guarded

variable (schema : Schema)

def tagSize (number : FieldNumber) (wireType : WireType) : Checked Nat := do
  return (← Tag.assert number.val wireType).size

/-- The size of a payload of `length` bytes with the length in front of it. -/
def lengthSize (length : Nat) : Checked Nat := Word.add (Varint.size (UInt64.ofNat length)) length

def payloadSize : Payload → Checked Nat
  | .delimited content => lengthSize content.length
  | p => pure p.size

def singleSize (number : FieldNumber) (k : Kind) (v : Value) (element : Checked Nat) :
    Checked Nat := do
  if ← k.omits v then return 0
  let tag ← tagSize number k.wireType
  Word.add tag (← element)

/-- Content of the size given, behind its tag and its length. -/
def framedSize (number : FieldNumber) (content : Checked Nat) : Checked Nat := do
  let tag ← tagSize number .delimited
  Word.add tag (← lengthSize (← content))

mutual

def elementSize (k : Kind) : Value → Checked Nat
  | .scalar s => do payloadSize (← k.payload (.scalar s))
  | .message m =>
    match k with
    | .message type => do lengthSize (← messageSize (schema.table type) m)
    | .scalar _ => (Except.error (k.mismatch (.message m)) : Except Error Nat)

/-- Elements with `lead` bytes in front of each, behind `soFar` bytes. -/
def elementsSize (lead : Nat) (k : Kind) (soFar : Nat) : List Value → Checked Nat
  | [] => return soFar
  | v :: vs => do
    let led ← Word.add soFar lead
    elementsSize lead k (← Word.add led (← elementSize k v)) vs

def entrySize (keyKind kind : Kind) : Entry → Checked Nat
  | ⟨key, value⟩ => do
    let keySize ← singleSize FieldNumber.key keyKind key (elementSize keyKind key)
    Word.add keySize (← singleSize FieldNumber.value kind value (elementSize kind value))

def entriesSize (number : FieldNumber) (keyKind kind : Kind) (soFar : Nat) :
    List Entry → Checked Nat
  | [] => return soFar
  | e :: es => do
    let framed ← framedSize number (entrySize keyKind kind e)
    entriesSize number keyKind kind (← Word.add soFar framed) es

def slotSize (field : FieldSlot) : Slot → Checked Nat
  | .unset => return 0
  | .single v =>
    match field.cardinality with
    | .single => singleSize field.number field.kind v (elementSize field.kind v)
    | _ => (Except.error (.unsupportedCardinality field.index) : Except Error Nat)
  | .repeated vs =>
    match field.cardinality with
    | .repeated =>
      if vs.isEmpty then return 0
      else if field.kind.isPackable then
        framedSize field.number (elementsSize 0 field.kind 0 vs)
      else do elementsSize (← tagSize field.number .delimited) field.kind 0 vs
    | _ => (Except.error (.unsupportedCardinality field.index) : Except Error Nat)
  | .map es =>
    match field.cardinality with
    | .map keyKind => entriesSize field.number keyKind field.kind 0 es
    | _ => (Except.error (.unsupportedCardinality field.index) : Except Error Nat)

def slotsSize (soFar : Nat) : List FieldSlot → List Slot → Checked Nat
  | field :: fields, slot :: slots => do
    slotsSize (← Word.add soFar (← slotSize field slot)) fields slots
  | _, _ => return soFar

def messageSize (table : FieldTable) : Message → Checked Nat
  | ⟨_, slots⟩ => slotsSize 0 table.slots slots

end

/-- A payload as it is written. For a delimited one its size is asked for, to have room for it. -/
def writePayload (p : Payload) : Checked Bytes := do
  let _ ← payloadSize p
  return p.encode

def writeSingle (number : FieldNumber) (k : Kind) (v : Value) (element : Checked Bytes) :
    Checked Bytes := do
  if ← k.omits v then
    Checked.emit (.omittedDefault number)
    return []
  else
    let tag ← Tag.assert number.val k.wireType
    return tag.encode ++ (← element)

mutual

def writeElement (k : Kind) : Value → Checked Bytes
  | .scalar s => do writePayload (← k.payload (.scalar s))
  | .message m =>
    match k with
    | .message type => do
      let size ← messageSize schema (schema.table type) m
      return Varint.encode (UInt64.ofNat size) ++ (← writeMessage (schema.table type) m)
    | .scalar _ => (Except.error (k.mismatch (.message m)) : Except Error Bytes)

def writeElements (k : Kind) : List Value → Checked Bytes
  | [] => return []
  | v :: vs => do return (← writeElement k v) ++ (← writeElements k vs)

/-- Elements with a tag in front of each. -/
def writeTagged (number : FieldNumber) (k : Kind) : List Value → Checked Bytes
  | [] => return []
  | v :: vs => do
    let tag ← Tag.assert number.val .delimited
    return tag.encode ++ (← writeElement k v) ++ (← writeTagged number k vs)

def writeEntry (keyKind kind : Kind) : Entry → Checked Bytes
  | ⟨key, value⟩ => do
    return (← writeSingle .key keyKind key (writeElement keyKind key)) ++
      (← writeSingle .value kind value (writeElement kind value))

def writeEntries (number : FieldNumber) (keyKind kind : Kind) : List Entry → Checked Bytes
  | [] => return []
  | e :: es => do
    let tag ← Tag.assert number.val .delimited
    let size ← entrySize schema keyKind kind e
    return tag.encode ++ Varint.encode (UInt64.ofNat size) ++ (← writeEntry keyKind kind e) ++
      (← writeEntries number keyKind kind es)

def writeSlot (field : FieldSlot) : Slot → Checked Bytes
  | .unset => return []
  | .single v =>
    match field.cardinality with
    | .single => writeSingle field.number field.kind v (writeElement field.kind v)
    | _ => (Except.error (.unsupportedCardinality field.index) : Except Error Bytes)
  | .repeated vs =>
    match field.cardinality with
    | .repeated =>
      if vs.isEmpty then return []
      else if field.kind.isPackable then do
        let tag ← Tag.assert field.number.val .delimited
        let size ← elementsSize schema 0 field.kind 0 vs
        return tag.encode ++ Varint.encode (UInt64.ofNat size) ++ (← writeElements field.kind vs)
      else writeTagged field.number field.kind vs
    | _ => (Except.error (.unsupportedCardinality field.index) : Except Error Bytes)
  | .map es =>
    match field.cardinality with
    | .map keyKind => writeEntries field.number keyKind field.kind es
    | _ => (Except.error (.unsupportedCardinality field.index) : Except Error Bytes)

def writeSlots : List FieldSlot → List Slot → Checked Bytes
  | field :: fields, slot :: slots => do
    return (← writeSlot field slot) ++ (← writeSlots fields slots)
  | _, _ => return []

def writeMessage (table : FieldTable) : Message → Checked Bytes
  | ⟨_, slots⟩ => writeSlots table.slots slots

end

/-- The bytes of the message, as many as were sized. -/
def encode (table : FieldTable) (m : Message) : Checked Bytes := do
  let size ← messageSize schema table m
  let written ← writeMessage schema table m
  if written.length = size then return written
  else (Except.error (.missized size written.length) : Except Fault Bytes)

end Guarded

end Protowire
