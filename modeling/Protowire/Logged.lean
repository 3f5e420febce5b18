import Protowire.Event

set_option autoImplicit false

/-!
# Logged computations

A result, or the error that ended the computation, with what was logged up to there.
-/

namespace Protowire

@[ext]
structure Logged (α : Type) where
  result : Except Error α
  log : List Event

namespace Logged

variable {α β : Type}

def ofExcept (result : Except Error α) : Logged α := ⟨result, []⟩

protected def pure (a : α) : Logged α := ⟨.ok a, []⟩

/-- An error ends the computation, and nothing after it is logged. -/
protected def bind (x : Logged α) (f : α → Logged β) : Logged β :=
  match x.result with
  | .error e => ⟨.error e, x.log⟩
  | .ok a =>
    let next := f a
    ⟨next.result, x.log ++ next.log⟩

instance : Monad Logged where
  pure := Logged.pure
  bind := Logged.bind

instance : MonadLift (Except Error) Logged where
  monadLift := ofExcept

def emit (e : Event) : Logged Unit := ⟨.ok (), [e]⟩

@[simp] theorem result_pure (a : α) : (pure a : Logged α).result = .ok a := rfl

@[simp] theorem log_pure (a : α) : (pure a : Logged α).log = [] := rfl

@[simp] theorem result_ofExcept (r : Except Error α) : (ofExcept r).result = r := rfl

@[simp] theorem log_ofExcept (r : Except Error α) : (ofExcept r).log = [] := rfl

theorem bind_of_ok {x : Logged α} {a : α} (h : x.result = .ok a) (f : α → Logged β) :
    x >>= f = ⟨(f a).result, x.log ++ (f a).log⟩ := by
  change Logged.bind x f = _
  simp [Logged.bind, h]

theorem bind_of_error {x : Logged α} {e : Error} (h : x.result = .error e) (f : α → Logged β) :
    x >>= f = ⟨.error e, x.log⟩ := by
  change Logged.bind x f = _
  simp [Logged.bind, h]

/-- Logs left aside, results compose as usual. -/
@[simp] theorem result_bind (x : Logged α) (f : α → Logged β) :
    (x >>= f).result = x.result >>= fun a => (f a).result := by
  cases h : x.result with
  | error e => rw [bind_of_error h]; rfl
  | ok a => rw [bind_of_ok h]; rfl

instance : LawfulMonad Logged := by
  refine .mk' Logged ?idMap ?pureBind ?assoc
  case idMap =>
    intro α x
    cases h : x.result with
    | error e => exact (bind_of_error h _).trans (Logged.ext h.symm rfl)
    | ok a => exact (bind_of_ok h _).trans (Logged.ext h.symm (List.append_nil _))
  case pureBind => exact fun a f => bind_of_ok (result_pure a) f
  case assoc =>
    intro α β γ x f g
    cases h : x.result with
    | error e =>
      rw [bind_of_error h, bind_of_error h]
      exact bind_of_error rfl _
    | ok a =>
      rw [bind_of_ok h, bind_of_ok h]
      cases k : (f a).result with
      | error e =>
        rw [bind_of_error k]
        exact bind_of_error rfl _
      | ok b =>
        rw [bind_of_ok k]
        exact (bind_of_ok rfl _).trans (Logged.ext rfl (List.append_assoc ..))

@[simp] theorem result_map (f : α → β) (x : Logged α) : (f <$> x).result = f <$> x.result := by
  rw [map_eq_pure_bind, map_eq_pure_bind, result_bind]
  rfl

@[simp] theorem result_liftM (r : Except Error α) : (liftM r : Logged α).result = r := rfl

end Logged

end Protowire
