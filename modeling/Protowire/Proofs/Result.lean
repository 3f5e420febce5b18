set_option autoImplicit false

/-!
# Results

Which results a composed computation has.
-/

namespace Protowire.Result

variable {ε α β : Type}

@[simp] theorem ok_bind (a : α) (f : α → Except ε β) : (.ok a >>= f) = f a := rfl

@[simp] theorem error_bind (e : ε) (f : α → Except ε β) : (.error e >>= f) = .error e := rfl

@[simp] theorem map_ok (f : α → β) (a : α) : f <$> (.ok a : Except ε α) = .ok (f a) := rfl

@[simp] theorem map_error (f : α → β) (e : ε) : f <$> (.error e : Except ε α) = .error e := rfl

@[simp] theorem mapError_ok {ε' : Type} (f : ε → ε') (a : α) :
    (.ok a : Except ε α).mapError f = .ok a := rfl

@[simp] theorem mapError_error {ε' : Type} (f : ε → ε') (e : ε) :
    (.error e : Except ε α).mapError f = .error (f e) := rfl

theorem bind_eq_ok_iff {x : Except ε α} {f : α → Except ε β} {b : β} :
    x >>= f = .ok b ↔ ∃ a, x = .ok a ∧ f a = .ok b := by
  cases x <;> simp

/-- There is only one result to look at. -/
theorem forall_ok_of_eq {x : Except ε α} {p : α → Prop} {a : α} (h : x = .ok a) (ha : p a) :
    ∀ b, x = .ok b → p b := by
  intro b same
  rw [h] at same
  cases same
  exact ha

theorem map_eq_ok_iff {x : Except ε α} {f : α → β} {b : β} :
    f <$> x = .ok b ↔ ∃ a, x = .ok a ∧ f a = b := by
  cases x <;> simp

theorem map_eq_error_iff {x : Except ε α} {f : α → β} {e : ε} :
    f <$> x = .error e ↔ x = .error e := by
  cases x <;> simp

theorem mapError_eq_ok_iff {ε' : Type} {x : Except ε α} {f : ε → ε'} {a : α} :
    x.mapError f = .ok a ↔ x = .ok a := by
  cases x <;> simp

theorem mapError_eq_error_iff {ε' : Type} {x : Except ε α} {f : ε → ε'} {e' : ε'} :
    x.mapError f = .error e' ↔ ∃ e, x = .error e ∧ f e = e' := by
  cases x <;> simp

/-- A computation that is run twice gives the same result twice. -/
theorem bind_bind_self (x : Except ε α) (f : α → α → Except ε β) :
    (x >>= fun a => x >>= f a) = x >>= fun a => f a a := by
  cases x <;> rfl

theorem bind_map_self (x : Except ε α) (f : α → α → β) :
    (x >>= fun a => f a <$> x) = (fun a => f a a) <$> x := by
  cases x <;> rfl

end Protowire.Result
