import Protowire.Read.Consumes

set_option autoImplicit false

/-!
# Transcripts

What reading the same thing over and over gives until the window is empty or a read fails. Every
turn keeps its own part of the log, so that whoever uses the values can stop in the middle.
-/

namespace Protowire

inductive Transcript (α : Type)
  | finished
  | failed (e : Error) (log : List Event)
  | turn (a : α) (log : List Event) (next : Transcript α)

/-- Every turn takes at least a byte, so the bytes left bound the number of turns. -/
def Read.untilEnd {α : Type} (x : Read α) (hx : x.Consumes) (c : Cursor) : Transcript α :=
  if c.unread.isEmpty then .finished
  else
    let reading := x.run c
    match _ : reading.result with
    | .error e => .failed e reading.log
    | .ok a => .turn a reading.log (x.untilEnd hx reading.rest)
termination_by c.remaining
decreasing_by exact hx c a ‹_›

/-- All the values, if the end was reached. -/
def Transcript.values {α : Type} : Transcript α → Logged (List α)
  | finished => pure []
  | failed e log => ⟨.error e, log⟩
  | turn a log next =>
    let rest := next.values
    ⟨(a :: ·) <$> rest.result, log ++ rest.log⟩

end Protowire
