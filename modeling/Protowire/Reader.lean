import Protowire.Read

set_option autoImplicit false

/-!
# Readers

A reader walks a buffer by absolute positions and can be moved back, which a cursor cannot. Every
read runs on the cursor of the window in force.
-/

namespace Protowire

structure Reader where
  buffer : Bytes
  position : Nat
  /-- The end of the window in force. -/
  stop : Nat
  deriving DecidableEq

namespace Reader

variable {α : Type}

def ofBytes (bytes : Bytes) : Reader := ⟨bytes, 0, bytes.length⟩

def remaining (r : Reader) : Nat := r.stop - r.position

def atEnd (r : Reader) : Bool := r.position == r.stop

def cursor (r : Reader) : Cursor := ⟨r.position, (r.buffer.take r.stop).drop r.position⟩

def run (r : Reader) (x : Read α) : Except Error α × Reader :=
  let reading := x.run r.cursor
  (reading.result, { r with position := reading.rest.offset })

/-- Any position up to the end of the window will do, also one in front of the window. -/
def seek (r : Reader) (offset : Nat) : Except Error Unit × Reader :=
  if offset ≤ r.stop then (.ok (), { r with position := offset })
  else (.error (.underrun (offset - r.position) r.remaining), r)

end Reader

end Protowire
