import Protowire.Message.Update
import Protowire.Read.Scalar
import Protowire.Read.Tag
import Protowire.Transcript

set_option autoImplicit false

/-!
# Records

A record is a tag and the payload behind it. What it does to the message is read without looking
at the message, so that the bytes alone decide which updates are made and where reading fails.

`nested` stands for the way embedded messages of each type are read.
-/

namespace Protowire

/-- A value without its tag. -/
def Kind.read (nested : Nat → Read Message) : Kind → Read Value
  | scalar t => do return .scalar (← t.read)
  | message type => do return .message (← nested type)

/-- What a record of a known field holds. -/
inductive Form
  | single
  /-- One element of a list. -/
  | element
  /-- Elements of a list, back to back. -/
  | packed (t : ScalarType)
  | entry (key : Kind)
  deriving DecidableEq

/-- The form in which a slot takes records of the wire type, if it takes them. A list of elements
that pack is taken packed or not. -/
def FieldSlot.form? (field : FieldSlot) (w : WireType) : Option Form :=
  match field.cardinality, field.kind with
  | .single, kind => if w = kind.wireType then some .single else none
  | .repeated, .scalar t =>
    if w = .delimited ∧ (Kind.scalar t).isPackable then some (.packed t)
    else if w = t.wireType then some .element
    else none
  | .repeated, .message _ => if w = .delimited then some .element else none
  | .map key, _ => if w = .delimited then some (.entry key) else none

/-- One half of a map entry. -/
inductive Half
  | key (v : Value)
  | value (v : Value)

namespace Half

/-- A later half takes the place of an earlier one. -/
def lastKey (missing : Value) : List (Option Half) → Value :=
  List.foldl (fun found half => match half with | some (key v) => v | _ => found) missing

def lastValue (missing : Value) : List (Option Half) → Value :=
  List.foldl (fun found half => match half with | some (value v) => v | _ => found) missing

end Half

namespace Decoding

variable (schema : Schema) (policy : MalformedTagPolicy) (nested : Nat → Read Message)

/-- A record inside a map entry. -/
def half (keyKind kind : Kind) : Read (Option Half) := do
  match ← Tag.next policy with
  | none => return none
  | some tag =>
    if tag.number = .key ∧ tag.wireType = keyKind.wireType then
      return some (.key (← keyKind.read nested))
    else if tag.number = .value ∧ tag.wireType = kind.wireType then
      return some (.value (← kind.read nested))
    else
      Read.emit (.strayEntryField tag.number tag.wireType)
      let _ ← tag.wireType.skip
      return none

theorem consumes_half (keyKind kind : Kind) : (half policy nested keyKind kind).Consumes :=
  (Tag.consumes_next policy).bind _

/-- All records of a map entry. -/
def halves (keyKind kind : Kind) (w : Cursor) : Transcript (Option Half) :=
  (half policy nested keyKind kind).untilEnd (consumes_half policy nested keyKind kind) w

/-- A half that is missing has its kind's default. -/
def entry (keyKind kind : Kind) : Read (Value × Value) :=
  Read.delimited fun w => do
    let found ← (halves policy nested keyKind kind w).values
    return (Half.lastKey (keyKind.default schema) found,
      Half.lastValue (kind.default schema) found)

def packed (t : ScalarType) : Read (List Scalar) :=
  Read.delimited fun w => (t.read.untilEnd t.consumes_read w).values

/-- The payload of a record that a slot takes. -/
def update (field : FieldSlot) : Form → Read Update
  | .single => do return .set field.index (← field.kind.read nested)
  | .element => do return .append field.index [← field.kind.read nested]
  | .packed t => do return .append field.index ((← packed t).map .scalar)
  | .entry keyKind => do
    let (key, value) ← entry schema policy nested keyKind field.kind
    return .insert field.index key value

/-- The next record of a message: the update it makes, or `none` if it is stepped over. -/
def record (table : FieldTable) : Read (Option Update) := do
  match ← Tag.next policy with
  | none => return none
  | some tag =>
    match table.slotByNumber? tag.number.val with
    | some field =>
      Read.emit (.knownField table.name field.number field.name tag.wireType)
      match field.form? tag.wireType with
      | some form => return some (← update schema policy nested field form)
      | none =>
        Read.emit (.mismatchedField table.name field.number field.name field.kind tag.wireType)
        let _ ← tag.wireType.skip
        return none
    | none =>
      let skipped ← tag.wireType.skip
      Read.emit (.unknownField table.name tag.number tag.wireType skipped)
      return none

theorem consumes_record (table : FieldTable) : (record schema policy nested table).Consumes :=
  (Tag.consumes_next policy).bind _

/-- All records of a window. -/
def records (table : FieldTable) (w : Cursor) : Transcript (Option Update) :=
  (record schema policy nested table).untilEnd (consumes_record schema policy nested table) w

end Decoding

end Protowire
