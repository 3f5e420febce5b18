import Protowire.Decoding
import Protowire.Proofs.Guarded.Reader

set_option autoImplicit false

/-!
# Guarded decoding

Decoding as a reader does it. A loop goes on as long as the reader is not at its end and counts on
every turn to move it; a nested message counts on a window smaller than the one around it. Neither
the limit nor any other bound is there to end the recursion.
-/

namespace Protowire

/-- A state that was carried through a loop, and how the loop ended. -/
structure Outcome (σ : Type) where
  state : σ
  result : Except Error Unit

/-- The state, if nothing failed. -/
def Outcome.toResult {σ : Type} (o : Outcome σ) : Except Error σ := o.result.map fun _ => o.state

/-- Makes an update, if the record brought one. -/
def Message.absorb (schema : Schema) (access : Accessors) (m : Message) :
    Option Update → Outcome Message
  | none => ⟨m, .ok ()⟩
  | some u =>
    let changed := m.update schema access u
    ⟨changed.message, changed.result⟩

/-- The halves of a map entry found so far. -/
structure EntryHalves where
  key : Option Value
  value : Option Value

def EntryHalves.absorb (found : EntryHalves) : Option Half → Outcome EntryHalves
  | none => ⟨found, .ok ()⟩
  | some (.key v) => ⟨{ found with key := some v }, .ok ()⟩
  | some (.value v) => ⟨{ found with value := some v }, .ok ()⟩

/-- One more element of a packed list. -/
def absorbElement (values : List Scalar) (v : Scalar) : Outcome (List Scalar) :=
  ⟨values ++ [v], .ok ()⟩

namespace Guarded

variable {α σ : Type}

/-- Takes turns until the reader is at the end of its window, or a turn or a change of the state
fails. -/
def loop (turn : Guarded α) (absorb : σ → α → Outcome σ) (s : σ) (m : Machine) :
    Except Fault (Outcome σ × Machine) :=
  if m.reader.atEnd then .ok (⟨s, .ok ()⟩, m)
  else
    match turn.run { m with work := m.work + 1 } with
    | .error fault => .error fault
    | .ok (.error e, m') => .ok (⟨s, .error e⟩, m')
    | .ok (.ok a, m') =>
      match absorb s a with
      | ⟨s', .error e⟩ => .ok (⟨s', .error e⟩, m')
      | ⟨s', .ok ()⟩ =>
        if m'.reader.remaining < m.reader.remaining then loop turn absorb s' m'
        else .error .stuck
termination_by m.reader.remaining

section Loop

variable {turn : Guarded α} {absorb : σ → α → Outcome σ} {s s' : σ} {m m' : Machine}

theorem loop_of_atEnd (h : m.reader.atEnd = true) :
    loop turn absorb s m = .ok (⟨s, .ok ()⟩, m) := by
  rw [loop, if_pos h]

variable (more : m.reader.atEnd = false)
include more

theorem loop_of_error {e : Error}
    (h : turn.run { m with work := m.work + 1 } = .ok (.error e, m')) :
    loop turn absorb s m = .ok (⟨s, .error e⟩, m') := by
  rw [loop, more, if_neg Bool.false_ne_true]
  simp only [h]

variable {a : α} (h : turn.run { m with work := m.work + 1 } = .ok (.ok a, m'))
include h

theorem loop_of_refusal {e : Error} (refused : absorb s a = ⟨s', .error e⟩) :
    loop turn absorb s m = .ok (⟨s', .error e⟩, m') := by
  rw [loop, more, if_neg Bool.false_ne_true]
  simp only [h, refused]

theorem loop_of_turn (taken : absorb s a = ⟨s', .ok ()⟩)
    (further : m'.reader.remaining < m.reader.remaining) :
    loop turn absorb s m = loop turn absorb s' m' := by
  rw [loop, more, if_neg Bool.false_ne_true]
  simp only [h, taken, if_pos further]

end Loop

/-- A loop whose state is given up if anything fails. -/
def whole (turn : Guarded α) (absorb : σ → α → Outcome σ) (s : σ) : Guarded σ :=
  ⟨fun m => (loop turn absorb s m).map fun (o, m') => (o.toResult, m')⟩

variable (schema : Schema) (policy : MalformedTagPolicy) (nested : Nat → Guarded Message)

def value : Kind → Guarded Value
  | .scalar t => do return .scalar (← scalar t)
  | .message type => do return .message (← nested type)

/-- A record inside a map entry. -/
def half (keyKind kind : Kind) : Guarded (Option Half) := do
  match ← nextTag policy with
  | none => return none
  | some tag =>
    if tag.number = .key ∧ tag.wireType = keyKind.wireType then
      return some (.key (← value nested keyKind))
    else if tag.number = .value ∧ tag.wireType = kind.wireType then
      return some (.value (← value nested kind))
    else
      emit (.strayEntryField tag.number tag.wireType)
      let _ ← skip tag.wireType
      return none

def entry (keyKind kind : Kind) : Guarded (Value × Value) := delimited do
  let found ← whole (half policy nested keyKind kind) EntryHalves.absorb ⟨none, none⟩
  return (found.key.getD (keyKind.default schema), found.value.getD (kind.default schema))

def packed (t : ScalarType) : Guarded (List Scalar) :=
  delimited (whole (scalar t) absorbElement [])

/-- The payload of a record that a slot takes. -/
def update (field : FieldSlot) : Form → Guarded Update
  | .single => do return .set field.index (← value nested field.kind)
  | .element => do return .append field.index [← value nested field.kind]
  | .packed t => do return .append field.index ((← packed t).map .scalar)
  | .entry keyKind => do
    let (key, value) ← entry schema policy nested keyKind field.kind
    return .insert field.index key value

/-- The next record of a message. -/
def record (table : FieldTable) : Guarded (Option Update) := do
  match ← nextTag policy with
  | none => return none
  | some tag =>
    match table.slotByNumber? tag.number.val with
    | some field =>
      emit (.knownField table.name field.number field.name tag.wireType)
      match field.form? tag.wireType with
      | some form => return some (← update schema policy nested field form)
      | none =>
        emit (.mismatchedField table.name field.number field.name field.kind tag.wireType)
        let _ ← skip tag.wireType
        return none
    | none =>
      let skipped ← skip tag.wireType
      emit (.unknownField table.name tag.number tag.wireType skipped)
      return none

variable (options : DecodeOptions) (access : Accessors)

/-- The fields of a nested message, read into a fresh one. -/
def fields (type : Nat) : Guarded Message :=
  whole (record schema policy nested (schema.table type)) (Message.absorb schema access)
    (schema.fresh type)

/-- A message in a field of one that is nested `depth` deep. -/
def messageFrom (depth : UInt32) (type : Nat) (m : Machine) :
    Except Fault (Except Error Message × Machine) :=
  if options.recursionLimit ≤ depth then
    .ok (.error (.recursionLimit options.recursionLimit), m)
  else
    match Word.next depth with
    | .error fault => .error fault
    | .ok deeper =>
      let nested (type : Nat) : Guarded Message := ⟨fun m' =>
        if m'.reader.remaining < m.reader.remaining then messageFrom deeper type m'
        else .error .stuck⟩
      (delimited (fields schema options.malformedTags nested access type)).run m
termination_by m.reader.remaining

def message (depth : UInt32) (type : Nat) : Guarded Message :=
  ⟨messageFrom schema options access depth type⟩

/-- Decodes `bytes` by `table` into the message. With what that leaves goes the work done. -/
def merge (table : FieldTable) (m : Message) (bytes : Bytes) :
    Except Fault (Decoded × Nat) :=
  let turn := record schema options.malformedTags (message schema options access 0) table
  (loop turn (Message.absorb schema access) m ⟨.ofBytes bytes, [], 0⟩).map fun (o, machine) =>
    (⟨⟨o.state, o.result⟩, machine.log⟩, machine.work)

end Guarded

end Protowire
