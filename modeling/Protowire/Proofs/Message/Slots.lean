import Protowire.Proofs.Message.Update

set_option autoImplicit false

/-!
# What slots hold

A change goes to one slot. What that slot holds afterwards depends on nothing but what it held, and
all other slots hold what they did.
-/

namespace Protowire

namespace Update

def slot : Update → Nat
  | set i _ => i
  | append i _ => i
  | insert i _ _ => i

/-- What the update makes of its slot. Only appending nothing leaves it as it is, whatever it
holds. -/
def revise (held : Slot) : Update → Slot
  | set _ v => .single v
  | append _ [] => held
  | append _ vs => .repeated (held.elements ++ vs)
  | insert _ key value => .map (Entry.insert key value held.entries)

end Update

/-- What the slot at `i` holds after the update of a record, if there is one. -/
def Slot.after (i : Nat) (held : Slot) : Option Update → Slot
  | none => held
  | some u => if u.slot = i then u.revise held else held

namespace Message

variable {m m' : Message} {i j : Nat} {s t : Slot} {v : Value}

theorem eq_of_slots (type : m.type = m'.type) (slots : m.slots = m'.slots) : m = m' := by
  cases m
  cases m'
  cases type
  cases slots
  rfl

theorem getElem?_put : (m.put i s).slots[j]? =
    if j = i then some s
    else if j < i ∧ m.slots.length ≤ j then some .unset
    else m.slots[j]? := by
  unfold put
  by_cases stored : i < m.slots.length
  · rw [if_pos stored, List.getElem?_set]
    grind
  · rw [if_neg stored]
    grind

theorem slot_put_of_ne (h : j ≠ i) : (m.put i s).slot j = m.slot j := by
  unfold slot
  rw [getElem?_put, if_neg h]
  split
  · next padded => rw [List.getElem?_eq_none padded.2]; rfl
  · rfl

theorem length_put : (m.put i s).slots.length = max m.slots.length (i + 1) := by
  unfold put
  split
  · grind
  · grind

theorem put_put : (m.put i s).put i t = m.put i t := by
  apply eq_of_slots
  · rw [type_put, type_put, type_put]
  · apply List.ext_getElem?
    intro j
    simp only [getElem?_put, length_put]
    grind

theorem put_comm (h : i ≠ j) : (m.put i s).put j t = (m.put j t).put i s := by
  apply eq_of_slots
  · rw [type_put, type_put, type_put, type_put]
  · apply List.ext_getElem?
    intro k
    simp only [getElem?_put, length_put]
    grind

theorem slot_push : (m.push i v).slot i = .repeated ((m.slot i).elements ++ [v]) :=
  slot_put ..

theorem slot_push_of_ne (h : j ≠ i) : (m.push i v).slot j = m.slot j :=
  slot_put_of_ne h

theorem foldl_push_cons (m : Message) (i : Nat) (v : Value) (vs : List Value) :
    (v :: vs).foldl (fun m v => m.push i v) m =
      m.put i (.repeated ((m.slot i).elements ++ v :: vs)) := by
  induction vs generalizing m v with
  | nil => rfl
  | cons w vs ih =>
    rw [List.foldl_cons, ih, slot_push, push, put_put]
    simp [Slot.elements]

/-- An update either changes nothing at all or stores what it makes of its slot. -/
theorem apply_cases (u : Update) :
    (∀ m : Message, m.apply (some u) = m ∧ u.revise (m.slot u.slot) = m.slot u.slot) ∨
      ∀ m : Message, m.apply (some u) = m.put u.slot (u.revise (m.slot u.slot)) := by
  cases u with
  | set => exact .inr fun _ => rfl
  | append i vs =>
    cases vs with
    | nil => exact .inl fun _ => ⟨rfl, rfl⟩
    | cons v vs => exact .inr fun m => foldl_push_cons m i v vs
  | insert => exact .inr fun _ => rfl

theorem slot_apply (m : Message) (o : Option Update) (i : Nat) :
    (m.apply o).slot i = (m.slot i).after i o := by
  cases o with
  | none => rfl
  | some u =>
    by_cases same : u.slot = i
    · subst same
      rw [Slot.after, if_pos rfl]
      rcases apply_cases u with nothing | stores
      · rw [(nothing m).1, (nothing m).2]
      · rw [stores, slot_put]
    · rw [Slot.after, if_neg same]
      rcases apply_cases u with nothing | stores
      · rw [(nothing m).1]
      · rw [stores, slot_put_of_ne (Ne.symm same)]

/-- Each slot goes through the updates on its own. -/
theorem slot_foldl_apply (m : Message) (os : List (Option Update)) (i : Nat) :
    (os.foldl apply m).slot i = os.foldl (Slot.after i) (m.slot i) := by
  induction os generalizing m with
  | nil => rfl
  | cons o os ih => rw [List.foldl_cons, List.foldl_cons, ih, slot_apply]

/-- Nothing shows a slot that no update is made to. -/
theorem slot_foldl_apply_of_ne {os : List (Option Update)}
    (elsewhere : ∀ u, some u ∈ os → u.slot ≠ i) : (os.foldl apply m).slot i = m.slot i := by
  induction os generalizing m with
  | nil => rfl
  | cons o os ih =>
    rw [List.foldl_cons, ih fun u hu => elsewhere u (List.mem_cons_of_mem o hu), slot_apply]
    cases o with
    | none => rfl
    | some u => exact if_neg (elsewhere u List.mem_cons_self)

end Message

end Protowire
