import Protowire.Event
import Protowire.Quoted

set_option autoImplicit false

/-!
# Tables built on first use

The declared fields are asked for when the table is first wanted, and not again once it is built.
Fields that form no table abort every attempt.
-/

namespace Protowire

structure LazyTable where
  name : String
  fields : List FieldSpec
  built : Option FieldTable := none
  /-- How often the fields were asked for. -/
  calls : Nat := 0
  deriving DecidableEq

namespace LazyTable

structure Got where
  result : Except Misuse FieldTable
  next : LazyTable
  log : List Event

def get (t : LazyTable) : Got :=
  match t.built with
  | some table => ⟨.ok table, t, []⟩
  | none =>
    let asked := { t with calls := t.calls + 1 }
    match FieldTable.build t.name t.fields with
    | .ok table =>
      ⟨.ok table, { asked with built := some table }, [.builtTable t.name table.slots.length]⟩
    | .error e => ⟨.error (.invalidTable e), asked, []⟩

def describe (t : LazyTable) : String :=
  let name := Quoted.quote t.name
  let built := if t.built.isSome then "true" else "false"
  "LazyFieldTable \x7b message: " ++ name ++ ", built: " ++ built ++ " \x7d"

end LazyTable

end Protowire
