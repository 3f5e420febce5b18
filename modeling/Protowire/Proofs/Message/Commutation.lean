import Protowire.Proofs.Message.Access

set_option autoImplicit false

/-!
# Changes of different slots

What a change makes of its slot depends on nothing else, and nothing else shows it. So changes of
different slots can be made in either order.
-/

namespace Protowire

namespace Message

variable {m m' : Message} {i : Nat}

/-- The updates of neither list have a slot in common with those of the other. -/
def Apart (os os' : List (Option Update)) : Prop :=
  ∀ u u', some u ∈ os → some u' ∈ os' → u.slot ≠ u'.slot

theorem apply_comm {o o' : Option Update} (h : Apart [o] [o']) (m : Message) :
    (m.apply o).apply o' = (m.apply o').apply o := by
  cases o with
  | none => rfl
  | some u =>
    cases o' with
    | none => rfl
    | some u' =>
      have apart : u.slot ≠ u'.slot := h u u' (by simp) (by simp)
      rcases apply_cases u with nothing | stores
      · rw [(nothing m).1, (nothing _).1]
      · rcases apply_cases u' with nothing' | stores'
        · rw [(nothing' m).1, (nothing' _).1]
        · rw [stores, stores', stores', stores, slot_put_of_ne apart, slot_put_of_ne apart.symm,
            put_comm apart]

theorem foldl_apply_comm {o : Option Update} {os : List (Option Update)} (h : Apart [o] os)
    (m : Message) : os.foldl apply (m.apply o) = (os.foldl apply m).apply o := by
  induction os generalizing m with
  | nil => rfl
  | cons o' os ih =>
    have first : Apart [o] [o'] := fun u u' hu hu' =>
      h u u' hu (List.mem_cons.2 (.inl (List.mem_singleton.1 hu')))
    have others : Apart [o] os := fun u u' hu hu' => h u u' hu (List.mem_cons_of_mem o' hu')
    rw [List.foldl_cons, List.foldl_cons, apply_comm first, ih others]

theorem foldl_foldl_apply_comm {os os' : List (Option Update)} (h : Apart os os') (m : Message) :
    os'.foldl apply (os.foldl apply m) = os.foldl apply (os'.foldl apply m) := by
  induction os generalizing m with
  | nil => rfl
  | cons o os ih =>
    have first : Apart [o] os' := fun u u' hu hu' =>
      h u u' (List.mem_cons.2 (.inl (List.mem_singleton.1 hu))) hu'
    have others : Apart os os' := fun u u' hu hu' => h u u' (List.mem_cons_of_mem o hu) hu'
    rw [List.foldl_cons, List.foldl_cons, ih others, foldl_apply_comm first]

section Made

variable {schema : Schema} {access : Accessors}

theorem append_of_made {v : Value} {m₁ : Message} (same : m'.type = m.type)
    (made : m.append schema access i v = .ok m₁) :
    m₁ = m.push i v ∧ m'.append schema access i v = .ok (m'.push i v) := by
  rcases append_cases schema access m i v with
    ⟨field, lets, declared, cardinality, taken, pushed⟩ | ⟨e, refused, -⟩
  · refine ⟨Except.ok.inj (made.symm.trans pushed), ?_⟩
    obtain ⟨number, index, name, _, kind⟩ := field
    cases cardinality
    simp only [append, declared?, same, lets, declared, taken]
    rfl
  · rw [refused] at made
    cases made

theorem appendAll_of_made {vs : List Value} (same : m'.type = m.type)
    (made : (m.appendAll schema access i vs).result = .ok ()) :
    m'.appendAll schema access i vs = ⟨m'.apply (some (.append i vs)), .ok ()⟩ := by
  induction vs generalizing m m' with
  | nil => rfl
  | cons v vs ih =>
    cases first : m.append schema access i v with
    | error e =>
      rw [appendAll, first] at made
      cases made
    | ok m₁ =>
      rw [appendAll, first] at made
      obtain ⟨rfl, pushed⟩ := append_of_made same first
      rw [appendAll, pushed]
      refine ih ?_ made
      rw [type_push, type_push, same]

/-- Whether an update is made depends on nothing but the type of the message. -/
theorem update_of_made {u : Update} (same : m'.type = m.type)
    (made : (m.update schema access u).result = .ok ()) :
    m'.update schema access u = ⟨m'.apply (some u), .ok ()⟩ := by
  cases u with
  | set i v =>
    rcases set_cases schema m i v with ⟨field, declared, cardinality, taken, -⟩ |
      ⟨e, refused, -⟩
    · obtain ⟨number, index, name, _, kind⟩ := field
      cases cardinality
      simp only [update, attempt, set, declared?, same, declared, taken]
      rfl
    · simp only [update, attempt, refused] at made
      cases made
  | append i vs => exact appendAll_of_made same made
  | insert i key value =>
    rcases insert_cases schema access m i key value with
      ⟨field, keyKind, lets, declared, cardinality, takenKey, taken, -⟩ | ⟨e, refused, -⟩
    · obtain ⟨number, index, name, _, kind⟩ := field
      cases cardinality
      simp only [update, attempt, insert, declared?, same, lets, declared, takenKey, taken]
      rfl
    · simp only [update, attempt, refused] at made
      cases made

end Made

end Message

end Protowire
