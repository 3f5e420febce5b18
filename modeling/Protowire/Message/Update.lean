import Protowire.Error
import Protowire.Message.KeyOrder

set_option autoImplicit false

/-!
# Changing messages

Every change goes through the message's own type. The type must let slots be changed that way, the
slot must be declared with the right cardinality, and each value must be of the variant that the
slot's kind carries. A change that is refused leaves the message as it was.
-/

namespace Protowire

namespace Value

def expectScalar (variant : Variant) : Value → Except Error Scalar
  | scalar s =>
    if s.variant = variant then .ok s
    else .error (.typeMismatch (.variant variant) (.variant s.variant))
  | message _ => .error (.typeMismatch (.variant variant) (.variant .message))

def expectMessage (type : Nat) : Value → Except Error Message
  | message m =>
    if m.type = type then .ok m
    else .error (.typeMismatch (.messageType type) .otherMessageType)
  | scalar s => .error (.typeMismatch (.variant .message) (.variant s.variant))

end Value

/-- The value itself, if a slot of the kind takes it. -/
def Kind.accept : Kind → Value → Except Error Value
  | scalar t, v => do return .scalar (← v.expectScalar t.variant)
  | message type, v => do return .message (← v.expectMessage type)

/-- What a message type lets be changed. Any type lets its single slots be set. Whether lists take
elements and maps take entries is up to the type. -/
structure Access where
  append : Bool
  insert : Bool
  deriving DecidableEq

namespace Access

def full : Access := ⟨true, true⟩

/-- Single slots only. -/
def singular : Access := ⟨false, false⟩

end Access

/-- The access of each message type of a family, by its place in the schema. -/
def Accessors : Type := Nat → Access

namespace Accessors

/-- Every type lets all of its slots be changed. -/
def full : Accessors := fun _ => .full

def singular : Accessors := fun _ => .singular

@[simp] theorem append_full (type : Nat) : (full type).append = true := rfl

@[simp] theorem insert_full (type : Nat) : (full type).insert = true := rfl

end Accessors

namespace Message

variable (schema : Schema) (m : Message)

def declared? (i : Nat) : Option FieldSlot := (schema.table m.type).slots[i]?

def set (i : Nat) (v : Value) : Except Error Message :=
  match m.declared? schema i with
  | some ⟨_, _, _, .single, kind⟩ => do return m.put i (.single (← kind.accept v))
  | _ => .error (.unsupportedCardinality i)

def append (access : Accessors) (i : Nat) (v : Value) : Except Error Message :=
  match (access m.type).append, m.declared? schema i with
  | true, some ⟨_, _, _, .repeated, kind⟩ => do
    return m.put i (.repeated ((m.slot i).elements ++ [← kind.accept v]))
  | _, _ => .error (.unsupportedCardinality i)

/-- The key is looked at before the value. -/
def insert (access : Accessors) (i : Nat) (key value : Value) : Except Error Message :=
  match (access m.type).insert, m.declared? schema i with
  | true, some ⟨_, _, _, .map keyKind, kind⟩ => do
    let key ← keyKind.accept key
    let value ← kind.accept value
    return m.put i (.map (Entry.insert key value (m.slot i).entries))
  | _, _ => .error (.unsupportedCardinality i)

end Message

/-- What one record of the input does to a message. -/
inductive Update
  | set (slot : Nat) (v : Value)
  | append (slot : Nat) (vs : List Value)
  | insert (slot : Nat) (key value : Value)

/-- A message after some changes, the last of which may have been refused. -/
structure Changed where
  message : Message
  result : Except Error Unit

namespace Message

variable (schema : Schema) (access : Accessors)

/-- A single change, all or nothing. -/
def attempt (m : Message) (change : Message → Except Error Message) : Changed :=
  match change m with
  | .ok m' => ⟨m', .ok ()⟩
  | .error e => ⟨m, .error e⟩

/-- Appends one by one; what came before a refused element stays. -/
def appendAll (m : Message) (i : Nat) : List Value → Changed
  | [] => ⟨m, .ok ()⟩
  | v :: vs =>
    match m.append schema access i v with
    | .ok m' => m'.appendAll i vs
    | .error e => ⟨m, .error e⟩

def update (m : Message) : Update → Changed
  | .set i v => m.attempt fun m => m.set schema i v
  | .append i vs => m.appendAll schema access i vs
  | .insert i key value => m.attempt fun m => m.insert schema access i key value

end Message

end Protowire
