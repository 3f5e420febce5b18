import Protowire.Proofs.Message.Refusal
import Protowire.Proofs.Message.Slots

set_option autoImplicit false

/-!
# What a type lets be changed

A type either lets an update be made or it does not. One that it lets be made is made as by a type
that lets everything be changed, and one that it does not is refused before anything is looked at.
-/

namespace Protowire

/-- Nothing keeps a list from taking no elements. -/
def Access.Permits (access : Access) : Update → Prop
  | .set _ _ => True
  | .append _ vs => vs = [] ∨ access.append = true
  | .insert _ _ _ => access.insert = true

theorem Access.permits_full (u : Update) : Access.full.Permits u := by
  cases u with
  | set i v => trivial
  | append i vs => exact .inr rfl
  | insert i key value => rfl

namespace Message

variable {schema : Schema} {access : Accessors} {m : Message} {i : Nat}

theorem append_of_append (lets : (access m.type).append = true) (v : Value) :
    m.append schema access i v = m.append schema .full i v := by
  simp only [append, lets]
  rfl

theorem appendAll_of_append (lets : (access m.type).append = true) (vs : List Value) :
    m.appendAll schema access i vs = m.appendAll schema .full i vs := by
  induction vs generalizing m with
  | nil => rfl
  | cons v vs ih =>
    rw [appendAll, appendAll, append_of_append lets]
    rcases append_cases schema .full m i v with ⟨field, -, -, -, -, made⟩ | ⟨e, refused, -⟩
    · simp only [made]
      apply ih
      rwa [type_push]
    · simp only [refused]

/-- A type that lets an update be made does no more about it. -/
theorem update_of_permits {u : Update} (permits : (access m.type).Permits u) :
    m.update schema access u = m.update schema .full u := by
  cases u with
  | set i v => rfl
  | append i vs =>
    rcases permits with rfl | lets
    · rfl
    · exact appendAll_of_append lets vs
  | insert i key value =>
    have lets : (access m.type).insert = true := permits
    simp only [update, attempt, insert, lets]
    rfl

theorem update_of_not_permits {u : Update} (denies : ¬ (access m.type).Permits u) :
    m.update schema access u = ⟨m, .error (.unsupportedCardinality u.slot)⟩ := by
  cases u with
  | set i v => exact absurd trivial denies
  | append i vs =>
    obtain ⟨nonempty, lacks⟩ := not_or.1 denies
    cases vs with
    | nil => exact absurd rfl nonempty
    | cons v vs =>
      have lacks : (access m.type).append = false := Bool.eq_false_iff.2 lacks
      simp only [update, appendAll, append, lacks, Update.slot]
  | insert i key value =>
    have lacks : (access m.type).insert = false := Bool.eq_false_iff.2 denies
    simp only [update, attempt, insert, lacks, Update.slot]

end Message

end Protowire
