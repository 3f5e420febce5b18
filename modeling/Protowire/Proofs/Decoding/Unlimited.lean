import Protowire.Proofs.Decoding.Agreement

set_option autoImplicit false

/-!
# Nesting without a limit

A nested message lies in a window of its own that is shorter than the one around it, and what lies
in that window decides about it. So one way of reading nested messages is given by the way messages
are made up, with no limit to end it, and a limit that is above the bytes there are is never met.
-/

namespace Protowire.Decoding

variable {schema : Schema} {policy : MalformedTagPolicy} {access : Accessors}
  {nested nested' : Nat → Read Message}

variable (schema policy access nested) in
/-- The messages in messages are read the way those are that they lie in. -/
def Unlimited : Prop :=
  ∀ type, nested type = Read.delimited fun w => ((schema.fresh type).replay schema access
    (records schema policy nested (schema.table type) w)).toLogged

/-- On each length of windows there is one such way: by induction on the length. -/
theorem Unlimited.agrees (h : Unlimited schema policy access nested)
    (h' : Unlimited schema policy access nested') (size : Nat) (type : Nat) :
    Read.Agrees size (fun _ => False) (nested type) (nested' type) := by
  induction size generalizing type with
  | zero => exact .zero _ _
  | succ size ih =>
    rw [h type, h' type]
    exact agrees_message_around (.refl _) ih access.agrees_refl type

theorem Unlimited.unique (h : Unlimited schema policy access nested)
    (h' : Unlimited schema policy access nested') : nested = nested' := by
  funext type
  apply Read.ext
  funext c
  exact (h'.agrees h (c.remaining + 1) type).run_eq (Nat.lt_succ_self _)

/-- As many levels as there are bytes are as good as any greater number. -/
theorem agrees_levels (schema : Schema) (options : DecodeOptions) (access : Accessors)
    {size levels levels' : Nat} (le : size ≤ levels) (le' : size ≤ levels') (type : Nat) :
    Read.Agrees size (fun _ => False) (message schema options access levels type)
      (message schema options access levels' type) := by
  induction size generalizing levels levels' type with
  | zero => exact .zero _ _
  | succ size ih =>
    obtain ⟨levels, rfl⟩ := Nat.exists_eq_add_one_of_ne_zero (Nat.ne_zero_of_lt le)
    obtain ⟨levels', rfl⟩ := Nat.exists_eq_add_one_of_ne_zero (Nat.ne_zero_of_lt le')
    exact agrees_message_around (.refl _)
      (ih (Nat.le_of_succ_le_succ le) (Nat.le_of_succ_le_succ le')) access.agrees_refl type

/-- A nested message, read with more levels than the window has bytes. -/
def unlimited (schema : Schema) (options : DecodeOptions) (access : Accessors) (type : Nat) :
    Read Message where
  run c := (message schema options access (c.remaining + 1) type).run c
  forward c := (message schema options access (c.remaining + 1) type).forward c

theorem agrees_unlimited (schema : Schema) (options : DecodeOptions) (access : Accessors)
    {size levels : Nat} (le : size ≤ levels) (type : Nat) :
    Read.Agrees size (fun _ => False) (message schema options access levels type)
      (unlimited schema options access type) := by
  intro c short
  exact agrees_levels schema options access (Nat.le_trans short le) (Nat.le_refl (c.remaining + 1))
    type c (Nat.lt_succ_self _)

theorem unlimited_unlimited (schema : Schema) (options : DecodeOptions) (access : Accessors) :
    Unlimited schema options.malformedTags access (unlimited schema options access) := by
  intro type
  apply Read.ext
  funext c
  have inside := agrees_unlimited schema options access (Nat.le_refl c.remaining)
  have around : Read.Agrees (c.remaining + 1) (fun _ => False)
      (message schema options access (c.remaining + 1) type) _ :=
    agrees_message_around (.refl (Tag.next options.malformedTags)) inside access.agrees_refl type
  exact (around.run_eq (Nat.lt_succ_self _)).symm

end Protowire.Decoding
