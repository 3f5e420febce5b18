import Protowire.Decoding.Record

set_option autoImplicit false

/-!
# Reading messages

Decoding applies the updates of the records in wire order: single fields are overwritten, lists
grow and map entries are inserted, so decoding into a message that holds something merges.
-/

namespace Protowire

structure DecodeOptions where
  malformedTags : MalformedTagPolicy := .resync
  /-- How deep messages may nest. -/
  recursionLimit : UInt32 := 100
  deriving DecidableEq

/-- Options under which a malformed tag ends the message. -/
def DecodeOptions.strict : DecodeOptions := { malformedTags := .reject }

/-- What decoding leaves: the message as far as it got, how that ended, and the log. -/
structure Decoded extends Changed where
  log : List Event

namespace Decoded

def toLogged (d : Decoded) : Logged Message := ⟨d.result.map fun _ => d.message, d.log⟩

end Decoded

/-- Makes the updates of a transcript, until one is refused. -/
def Message.replay (schema : Schema) (access : Accessors) (m : Message) :
    Transcript (Option Update) → Decoded
  | .finished => ⟨⟨m, .ok ()⟩, []⟩
  | .failed e log => ⟨⟨m, .error e⟩, log⟩
  | .turn none log next =>
    let rest := m.replay schema access next
    { rest with log := log ++ rest.log }
  | .turn (some u) log next =>
    let changed := m.update schema access u
    match changed.result with
    | .error _ => ⟨changed, log⟩
    | .ok _ =>
      let rest := changed.message.replay schema access next
      { rest with log := log ++ rest.log }

namespace Decoding

variable (schema : Schema) (options : DecodeOptions) (access : Accessors)

/-- A nested message with its length, where `levels` more levels may nest. It is read into a fresh
message of its type, changed as that type lets it, and given up if anything in it fails. -/
def message : (levels : Nat) → (type : Nat) → Read Message
  | 0, _ => .fail (.recursionLimit options.recursionLimit)
  | levels + 1, type => Read.delimited fun w =>
    ((schema.fresh type).replay schema access
      (records schema options.malformedTags (message levels) (schema.table type) w)).toLogged

/-- The records of a whole input. -/
def transcript (table : FieldTable) (bytes : Bytes) : Transcript (Option Update) :=
  records schema options.malformedTags
    (message schema options access options.recursionLimit.toNat) table (.ofBytes bytes)

end Decoding

namespace Message

/-- Decodes `bytes` by `table` into the message. -/
def merge (schema : Schema) (options : DecodeOptions) (access : Accessors) (table : FieldTable)
    (m : Message) (bytes : Bytes) : Decoded :=
  m.replay schema access (Decoding.transcript schema options access table bytes)

/-- A message of the type, decoded from `bytes` with the default options. -/
def decode (schema : Schema) (access : Accessors) (type : Nat) (bytes : Bytes) : Logged Message :=
  ((schema.fresh type).merge schema {} access (schema.table type) bytes).toLogged

end Message

end Protowire
