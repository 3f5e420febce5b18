import Protowire.Read.Scalar
import Protowire.Read.Tag
import Protowire.Reader
import Protowire.Transcript

set_option autoImplicit false

/-!
# Reader programs

A program is a list of steps, with programs of their own inside windows. A window is left at its
end however its program went, and the first step that fails in it fails the window.
-/

namespace Protowire

inductive Primitive
  | byte
  | varint
  /-- The low half of a varint. -/
  | varint32
  | scalar (t : ScalarType)
  deriving DecidableEq

namespace Primitive

def read : Primitive → Read Scalar
  | byte => do return .u32 (← Read.byte).toUInt32
  | varint => do return .u64 (← Read.varint)
  | varint32 => do return .u32 (← Read.varint).toUInt32
  | scalar t => t.read

theorem consumes_read (p : Primitive) : p.read.Consumes := by
  cases p with
  | byte => exact Read.consumes_byte.bind _
  | varint | varint32 => exact Read.consumes_varint.bind _
  | scalar t => exact t.consumes_read

/-- Elements back to back behind their length. -/
def readPacked (p : Primitive) : Read (List Scalar) :=
  Read.delimited fun w => (p.read.untilEnd p.consumes_read w).values

end Primitive

namespace Reader

inductive Step
  | read (p : Primitive)
  | tag
  | packed (p : Primitive)
  | skip (w : WireType)
  | seek (offset : Nat)
  /-- A window whose length is read first. -/
  | delimited (steps : List Step)
  | window (size : Nat) (steps : List Step)

inductive Answer
  | scalar (s : Scalar)
  | tag (t : Tag)
  | scalars (values : List Scalar)
  | count (n : Nat)
  | nothing
  deriving DecidableEq

/-- The outcome of a step and where it left the reader. `inside` has the reports of the steps that
ran in the step's window, and is `none` if no window was opened. -/
structure Report where
  result : Except Error Answer
  position : Nat
  remaining : Nat
  atEnd : Bool
  inside : Option (List Report)

/-- A step's report together with the reader it leaves. -/
structure Stepped where
  report : Report
  reader : Reader

def report (r : Reader) (result : Except Error Answer) (inside : Option (List Report)) : Stepped :=
  ⟨⟨result, r.position, r.remaining, r.atEnd, inside⟩, r⟩

def runStep {α : Type} (r : Reader) (x : Read α) (answer : α → Answer) : Stepped :=
  let (result, next) := r.run x
  next.report (result.map answer) none

/-- Runs `program` in a window of `size` bytes and leaves the reader behind the window. -/
def enter (r : Reader) (size : Nat) (program : Reader → List Report × Except Error Unit) :
    Stepped :=
  if size ≤ r.remaining then
    let (reports, result) := program { r with stop := r.position + size }
    { r with position := r.position + size }.report (result.map fun _ => .nothing) (some reports)
  else r.report (.error (.underrun size r.remaining)) none

mutual

def step (r : Reader) : Step → Stepped
  | .read p => r.runStep p.read .scalar
  | .tag => r.runStep Tag.read .tag
  | .packed p => r.runStep p.readPacked .scalars
  | .skip w => r.runStep w.skip .count
  | .seek offset =>
    let (result, next) := r.seek offset
    next.report (result.map fun _ => .nothing) none
  | .delimited steps =>
    let (size, next) := r.run Read.varint
    match size with
    | .ok n => next.enter n.toNat fun w => w.within steps
    | .error e => next.report (.error e) none
  | .window size steps => r.enter size fun w => w.within steps

/-- Steps inside a window, up to the first that fails. -/
def within (r : Reader) : List Step → List Report × Except Error Unit
  | [] => ([], .ok ())
  | s :: steps =>
    let stepped := r.step s
    match stepped.report.result with
    | .error e => ([stepped.report], .error e)
    | .ok _ =>
      let (reports, result) := stepped.reader.within steps
      (stepped.report :: reports, result)

end

/-- Steps outside all windows, each from wherever the one before left the reader. -/
def runAll (r : Reader) : List Step → List Report
  | [] => []
  | s :: steps =>
    let stepped := r.step s
    stepped.report :: stepped.reader.runAll steps

end Reader

end Protowire
