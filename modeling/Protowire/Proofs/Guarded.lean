import Mathlib.Algebra.Group.Nat.Defs
import Protowire.Error
import Protowire.Reader

set_option autoImplicit false

/-!
# Guarded steps

The codec adds and subtracts machine words, shifts them and indexes a buffer, and none of these has
a result for all its operands. Here each of them says so when it has none. A fault is no error: it
is what no input may lead to.
-/

namespace Protowire

inductive Fault
  /-- An assertion about an argument does not hold. -/
  | misuse (m : Misuse)
  | overflow
  | underflow
  /-- A word is shifted by its width or more. -/
  | shift
  | outOfBounds
  /-- A place that was read before is not to be had any more. -/
  | lostPlace
  /-- A loop or a recursion does not come closer to its end. -/
  | stuck
  /-- What was written is not what was sized. -/
  | missized (sized written : Nat)
  deriving DecidableEq

namespace Word

def add (a b : Nat) : Except Fault Nat := if a + b < 2 ^ 64 then .ok (a + b) else .error .overflow

def sub (a b : Nat) : Except Fault Nat := if b ≤ a then .ok (a - b) else .error .underflow

def shiftLeft (v : UInt64) (n : Nat) : Except Fault UInt64 :=
  if n < 64 then .ok (v <<< UInt64.ofNat n) else .error .shift

/-- The next 32-bit word. -/
def next (n : UInt32) : Except Fault UInt32 :=
  if n.toNat + 1 < 2 ^ 32 then .ok (n + 1) else .error .overflow

variable {a b n : Nat}

theorem add_eq (h : a + b < 2 ^ 64) : add a b = .ok (a + b) := if_pos h

theorem sub_eq (h : b ≤ a) : sub a b = .ok (a - b) := if_pos h

theorem shiftLeft_eq (v : UInt64) (h : n < 64) : shiftLeft v n = .ok (v <<< UInt64.ofNat n) :=
  if_pos h

theorem next_eq {n limit : UInt32} (h : n < limit) : next n = .ok (n + 1) := by
  have below := UInt32.lt_iff_toNat_lt.1 h
  have bound := limit.toNat_lt
  exact if_pos (by omega)

end Word

namespace Slice

def index (bytes : Bytes) (i : Nat) : Except Fault UInt8 :=
  match bytes[i]? with
  | some b => .ok b
  | none => .error .outOfBounds

def range (bytes : Bytes) (start stop : Nat) : Except Fault Bytes :=
  if start ≤ stop ∧ stop ≤ bytes.length then .ok ((bytes.take stop).drop start)
  else .error .outOfBounds

end Slice

/-- A tag of the caller's own making, as an assertion about its number. -/
def Tag.assert (number : UInt32) (wireType : WireType) : Except Fault Tag :=
  (Tag.make number wireType).mapError .misuse

theorem Tag.assert_eq (n : FieldNumber) (w : WireType) : Tag.assert n.val w = .ok ⟨n, w⟩ := by
  have found : FieldNumber.ofUInt32? n.val = some n := dif_pos n.inRange
  simp only [Tag.assert, Tag.make, found]
  rfl

example : Tag.assert 128 .varint = .error (.misuse (.fieldNumber 128)) := rfl

namespace Reader

def moveTo (r : Reader) (position : Nat) : Reader := { r with position := position }

def boundBy (r : Reader) (stop : Nat) : Reader := { r with stop := stop }

variable {r : Reader} {position stop : Nat}

@[simp] theorem buffer_moveTo : (r.moveTo position).buffer = r.buffer := rfl

@[simp] theorem position_moveTo : (r.moveTo position).position = position := rfl

@[simp] theorem stop_moveTo : (r.moveTo position).stop = r.stop := rfl

@[simp] theorem buffer_boundBy : (r.boundBy stop).buffer = r.buffer := rfl

@[simp] theorem position_boundBy : (r.boundBy stop).position = r.position := rfl

@[simp] theorem stop_boundBy : (r.boundBy stop).stop = stop := rfl

@[simp] theorem moveTo_moveTo {position' : Nat} :
    (r.moveTo position).moveTo position' = r.moveTo position' := rfl

end Reader

/-- A reader at work. -/
structure Machine where
  reader : Reader
  log : List Event
  /-- Bytes passed, each time over, and turns of loops. -/
  work : Nat

/-- A step of a machine. An error ends the computation and leaves the machine as it is then, as the
codec's own errors do; a fault leaves nothing. -/
structure Guarded (α : Type) where
  run : Machine → Except Fault (Except Error α × Machine)

namespace Guarded

variable {α β : Type}

protected def pure (a : α) : Guarded α := ⟨fun m => .ok (.ok a, m)⟩

protected def bind (x : Guarded α) (f : α → Guarded β) : Guarded β where
  run m :=
    match x.run m with
    | .error fault => .error fault
    | .ok (.error e, m') => .ok (.error e, m')
    | .ok (.ok a, m') => (f a).run m'

instance : Monad Guarded where
  pure := Guarded.pure
  bind := Guarded.bind

/-- A guarded operation on words or slices. -/
instance : MonadLift (Except Fault) Guarded where
  monadLift x := ⟨fun m => x.map fun a => (.ok a, m)⟩

def ofExcept (result : Except Error α) : Guarded α := ⟨fun m => .ok (result, m)⟩

def fail (e : Error) : Guarded α := ofExcept (.error e)

/-- Goes on with the result of `x`, also if that is an error. -/
def attempt (x : Guarded α) : Guarded (Except Error α) :=
  ⟨fun m => (x.run m).map fun (result, m') => (.ok result, m')⟩

def reader : Guarded Reader := ⟨fun m => .ok (.ok m.reader, m)⟩

def emit (e : Event) : Guarded Unit := ⟨fun m => .ok (.ok (), { m with log := m.log ++ [e] })⟩

def moveTo (position : Nat) : Guarded Unit :=
  ⟨fun m => .ok (.ok (), { m with reader := m.reader.moveTo position })⟩

def boundBy (stop : Nat) : Guarded Unit :=
  ⟨fun m => .ok (.ok (), { m with reader := m.reader.boundBy stop })⟩

def tick (n : Nat) : Guarded Unit := ⟨fun m => .ok (.ok (), { m with work := m.work + n })⟩

variable {m m' : Machine}

theorem run_bind_of_ok {x : Guarded α} {a : α} (h : x.run m = .ok (.ok a, m'))
    (f : α → Guarded β) : (x >>= f).run m = (f a).run m' := by
  change (Guarded.bind x f).run m = _
  simp only [Guarded.bind, h]

theorem run_bind_of_error {x : Guarded α} {e : Error} (h : x.run m = .ok (.error e, m'))
    (f : α → Guarded β) : (x >>= f).run m = .ok (.error e, m') := by
  change (Guarded.bind x f).run m = _
  simp only [Guarded.bind, h]

theorem lift_bind {x : Except Fault α} {a : α} (h : x = .ok a) (f : α → Guarded β) :
    (liftM x >>= f : Guarded β) = f a := by
  rw [h]
  rfl

theorem run_attempt_bind {x : Guarded α} {result : Except Error α}
    (h : x.run m = .ok (result, m')) (f : Except Error α → Guarded β) :
    (x.attempt >>= f).run m = (f result).run m' := by
  apply run_bind_of_ok
  change (x.run m).map _ = _
  rw [h]
  rfl

@[simp] theorem run_pure (a : α) : (pure a : Guarded α).run m = .ok (.ok a, m) := rfl

@[simp] theorem run_reader_bind (f : Reader → Guarded β) :
    (reader >>= f).run m = (f m.reader).run m := rfl

@[simp] theorem run_emit_bind (e : Event) (f : Unit → Guarded β) :
    (emit e >>= f).run m = (f ()).run { m with log := m.log ++ [e] } := rfl

@[simp] theorem run_moveTo (position : Nat) :
    (moveTo position).run m = .ok (.ok (), { m with reader := m.reader.moveTo position }) := rfl

@[simp] theorem run_boundBy_bind (stop : Nat) (f : Unit → Guarded β) :
    (boundBy stop >>= f).run m = (f ()).run { m with reader := m.reader.boundBy stop } := rfl

@[simp] theorem run_tick_bind (n : Nat) (f : Unit → Guarded β) :
    (tick n >>= f).run m = (f ()).run { m with work := m.work + n } := rfl

end Guarded

end Protowire
