import Protowire.Cursor
import Protowire.Logged

set_option autoImplicit false

/-!
# Reads

A read takes a value off the front of a window, or fails, and in both cases leaves the cursor
somewhere further on. That it never goes back or past the end is part of its type.
-/

namespace Protowire

@[ext]
structure Reading (α : Type) extends Logged α where
  rest : Cursor

@[ext]
structure Read (α : Type) where
  run : Cursor → Reading α
  forward : ∀ c : Cursor, c.Reaches (run c).rest

namespace Read

variable {α β : Type}

protected def pure (a : α) : Read α := ⟨fun c => ⟨⟨.ok a, []⟩, c⟩, .refl⟩

protected def bind (x : Read α) (f : α → Read β) : Read β where
  run c :=
    let first := x.run c
    match first.result with
    | .error e => ⟨⟨.error e, first.log⟩, first.rest⟩
    | .ok a =>
      let next := (f a).run first.rest
      ⟨⟨next.result, first.log ++ next.log⟩, next.rest⟩
  forward c := by
    have h := x.forward c
    cases hr : (x.run c).result with
    | error e => simpa [hr] using h
    | ok a => simpa [hr] using h.trans ((f a).forward _)

instance : Monad Read where
  pure := Read.pure
  bind := Read.bind

@[simp] theorem run_pure (a : α) (c : Cursor) : (pure a : Read α).run c = ⟨⟨.ok a, []⟩, c⟩ := rfl

theorem run_bind_of_ok {x : Read α} {c : Cursor} {a : α} (h : (x.run c).result = .ok a)
    (f : α → Read β) :
    (x >>= f).run c =
      let next := (f a).run (x.run c).rest
      ⟨⟨next.result, (x.run c).log ++ next.log⟩, next.rest⟩ := by
  change (Read.bind x f).run c = _
  simp [Read.bind, h]

theorem run_bind_of_error {x : Read α} {c : Cursor} {e : Error}
    (h : (x.run c).result = .error e) (f : α → Read β) :
    (x >>= f).run c = ⟨⟨.error e, (x.run c).log⟩, (x.run c).rest⟩ := by
  change (Read.bind x f).run c = _
  simp [Read.bind, h]

instance : LawfulMonad Read := by
  refine .mk' Read ?idMap ?pureBind ?assoc
  case idMap =>
    intro α x
    refine Read.ext (funext fun c => ?_)
    cases h : (x.run c).result with
    | error e => exact (run_bind_of_error h _).trans (Reading.ext h.symm rfl rfl)
    | ok a => exact (run_bind_of_ok h _).trans (Reading.ext h.symm (List.append_nil _) rfl)
  case pureBind => exact fun a f => Read.ext (funext fun c => run_bind_of_ok rfl f)
  case assoc =>
    intro α β γ x f g
    refine Read.ext (funext fun c => ?_)
    cases h : (x.run c).result with
    | error e =>
      rw [run_bind_of_error h, run_bind_of_error]
      · rw [run_bind_of_error h]
      · rw [run_bind_of_error h]
    | ok a =>
      rw [run_bind_of_ok h]
      cases k : ((f a).run (x.run c).rest).result with
      | error e =>
        rw [run_bind_of_error k, run_bind_of_error]
        · rw [run_bind_of_ok h]
        · rw [run_bind_of_ok h]
          exact k
      | ok b =>
        rw [run_bind_of_ok k, run_bind_of_ok]
        · rw [run_bind_of_ok h]
          exact Reading.ext rfl (List.append_assoc ..) rfl
        · rw [run_bind_of_ok h]
          exact k

def fail (e : Error) : Read α := ⟨fun c => ⟨⟨.error e, []⟩, c⟩, .refl⟩

def emit (e : Event) : Read Unit := ⟨fun c => ⟨⟨.ok (), [e]⟩, c⟩, .refl⟩

def offset : Read Nat := ⟨fun c => ⟨⟨.ok c.offset, []⟩, c⟩, .refl⟩

/-- A result worked out from what was read; the bytes stay read if it is an error. -/
def ofExcept (result : Except Error α) : Read α := ⟨fun c => ⟨⟨result, []⟩, c⟩, .refl⟩

/-- Runs `inner` in a window of the next `n` bytes. However that ends, all of them are read. -/
def window (n : Nat) (inner : Cursor → Logged α) : Read α where
  run c :=
    if n ≤ c.remaining then ⟨inner (c.take n), c.drop n⟩
    else ⟨⟨.error (.underrun n c.remaining), []⟩, c⟩
  forward c := by
    split
    · exact ⟨n, ‹_›, rfl⟩
    · exact .refl c

def mapError (f : Error → Error) (x : Read α) : Read α where
  run c := { x.run c with result := (x.run c).result.mapError f }
  forward c := x.forward c

/-- Goes back to where `x` began and runs what `handler` gives for its error, if anything. -/
def recover (x : Read α) (handler : Error → Option (Read α)) : Read α where
  run c :=
    let first := x.run c
    match first.result with
    | .ok _ => first
    | .error e =>
      match handler e with
      | none => first
      | some y =>
        let second := y.run c
        ⟨⟨second.result, first.log ++ second.log⟩, second.rest⟩
  forward c := by
    cases hr : (x.run c).result with
    | ok a => simpa [hr] using x.forward c
    | error e =>
      cases h : handler e with
      | none => simpa [hr, h] using x.forward c
      | some y => simpa [hr, h] using y.forward c

end Read

end Protowire
