import Protowire.Proofs.FieldTable
import Protowire.Proofs.Message.Commutation
import Protowire.Proofs.Message.LastWrite

set_option autoImplicit false

/-!
# Updates made again

Setting a field and inserting an entry replace what was there, so making such an update again later
on hides its first time, whatever was made between. So a list of them can be made twice.
-/

namespace Protowire

/-- The update replaces what it finds. Appending does not. -/
def Update.Overwrites : Update → Prop
  | set _ _ => True
  | append _ _ => False
  | insert _ _ _ => True

@[simp] theorem Slot.entries_map (es : List Entry) : (Slot.map es).entries = es := rfl

/-- The update, if there is one, suits the type and overwrites. -/
def Update.Overwriting (schema : Schema) (type : Nat) (o : Option Update) : Prop :=
  ∀ u, o = some u → u.Suits schema type ∧ u.Overwrites

namespace Entry

variable {p : Value → Prop} {key value : Value} {es : List Entry}

theorem insert_insert (ranked : Value.Ranked p) (sorted : Ascending es)
    (keys : ∀ e ∈ es, p e.key) (hk : p key) :
    insert key value (insert key value es) = insert key value es := by
  have inserted := @ascending_insert key value es sorted
  refine eq_of_mem_iff (ascending_insert inserted) inserted fun e => ?_
  rw [mem_insert_iff ranked hk (holds_key_insert hk keys) inserted,
    mem_insert_iff ranked hk keys sorted]
  grind

end Entry

namespace Message

variable {schema : Schema} {m : Message} {u w : Update}

/-- What is in the map that an insertion goes to. -/
theorem entries_of_suits {i : Nat} {key value : Value}
    (fits : m.Fits schema (schema.table m.type))
    (suits : (Update.insert i key value).Suits schema m.type) :
    ∃ p : Value → Prop, Value.Ranked p ∧ p key ∧ (∀ e ∈ (m.slot i).entries, p e.key) ∧
      Entry.Ascending (m.slot i).entries ∧
      ∀ key' value', (Update.insert i key' value').Suits schema m.type → p key' := by
  obtain ⟨field, keyKind, declared, cardinality, hk, -⟩ := suits
  have consistent := (schema.built_table m.type).consistent
  have isKey := consistent.keys (List.mem_of_getElem? declared) cardinality
  obtain ⟨keys, -, sorted⟩ := entries_of_holds (holds_slot fits declared) cardinality
  refine ⟨keyKind.Holds schema, Kind.ranked_of_isMapKey isKey, hk, keys, sorted, ?_⟩
  rintro key' value' ⟨field', keyKind', declared', cardinality', hk', -⟩
  obtain rfl := Option.some.inj (declared.symm.trans declared')
  rw [cardinality, Cardinality.map.injEq] at cardinality'
  exact cardinality' ▸ hk'

theorem apply_apply (fits : m.Fits schema (schema.table m.type)) (suits : u.Suits schema m.type)
    (overwrites : u.Overwrites) : (m.apply (some u)).apply (some u) = m.apply (some u) := by
  cases u with
  | set i v => exact put_put
  | append i vs => exact overwrites.elim
  | insert i key value =>
    obtain ⟨p, ranked, hk, keys, sorted, -⟩ := entries_of_suits fits suits
    simp only [apply, put_put, slot_put, Slot.entries_map]
    rw [Entry.insert_insert ranked sorted keys hk]

/-- Only what was made last of an update counts, with one other update between. -/
theorem apply_apply_apply (fits : m.Fits schema (schema.table m.type))
    (hu : u.Suits schema m.type) (hw : w.Suits schema m.type)
    (overwrites : u.Overwrites) (overwrites' : w.Overwrites) :
    ((m.apply (some u)).apply (some w)).apply (some u) = (m.apply (some w)).apply (some u) := by
  by_cases same : u.slot = w.slot
  · cases u with
    | append => exact overwrites.elim
    | set i v =>
      cases w with
      | append => exact overwrites'.elim
      | set j v' =>
        obtain rfl : i = j := same
        simp only [apply, put_put]
      | insert j key' value' =>
        obtain rfl : i = j := same
        simp only [apply, put_put]
    | insert i key value =>
      cases w with
      | append => exact overwrites'.elim
      | set j v' =>
        obtain rfl : i = j := same
        simp only [apply, put_put, slot_put]
      | insert j key' value' =>
        obtain rfl : i = j := same
        obtain ⟨p, ranked, hk, keys, sorted, alike⟩ := entries_of_suits fits hu
        simp only [apply, put_put, slot_put, Slot.entries_map]
        rw [Entry.insert_insert_insert ranked sorted keys hk (alike key' value' hw)]
  · have apart : Apart [some u] [some w] := by
      intro v v' hv hv'
      cases List.mem_singleton.1 hv
      cases List.mem_singleton.1 hv'
      exact same
    rw [apply_comm apart]
    have fits' := fits_apply fits hw
    rw [← type_apply m (some w)] at fits' hu
    exact apply_apply fits' hu overwrites

section Lists

variable {o : Option Update} {os ws : List (Option Update)}

/-- Only what was made last of an update counts, whatever was made between. -/
theorem apply_foldl_apply (fits : m.Fits schema (schema.table m.type))
    (suits : u.Suits schema m.type) (overwrites : u.Overwrites)
    (hos : ∀ o ∈ os, Update.Overwriting schema m.type o) :
    (os.foldl apply (m.apply (some u))).apply (some u) = (os.foldl apply m).apply (some u) := by
  induction os generalizing m with
  | nil => exact apply_apply fits suits overwrites
  | cons o os ih =>
    obtain ⟨first, others⟩ := List.forall_mem_cons.1 hos
    cases o with
    | none => exact ih fits suits others
    | some w =>
      obtain ⟨suits', overwrites'⟩ := first w rfl
      have hide {m' : Message} (type : m'.type = m.type)
          (fits' : m'.Fits schema (schema.table m.type)) :
          (os.foldl apply (m'.apply (some u))).apply (some u) =
            (os.foldl apply m').apply (some u) := by
        rw [← type] at fits' suits others
        exact ih fits' suits others
      have around : ((m.apply (some u)).apply (some w)).Fits schema (schema.table m.type) := by
        have inner := fits_apply fits suits
        rw [← type_apply m (some u)] at inner suits'
        simpa using fits_apply inner suits'
      calc (os.foldl apply ((m.apply (some u)).apply (some w))).apply (some u)
        -- a third time in front of the rest changes nothing, and hides the first one
        _ = (os.foldl apply (((m.apply (some u)).apply (some w)).apply (some u))).apply (some u) :=
          (hide (by simp) around).symm
        _ = (os.foldl apply ((m.apply (some w)).apply (some u))).apply (some u) := by
          rw [apply_apply_apply fits suits suits' overwrites overwrites']
        _ = (os.foldl apply (m.apply (some w))).apply (some u) :=
          hide (by simp) (fits_apply fits suits')

/-- Updates made in front of others and again behind them count behind them only. -/
theorem foldl_foldl_foldl_apply (fits : m.Fits schema (schema.table m.type))
    (hos : ∀ o ∈ os, Update.Overwriting schema m.type o)
    (hws : ∀ o ∈ ws, Update.Overwriting schema m.type o) :
    os.foldl apply (ws.foldl apply (os.foldl apply m)) = os.foldl apply (ws.foldl apply m) := by
  -- the first update of `os` joins those between, where the rest of `os` counts for nothing
  induction os generalizing m ws with
  | nil => rfl
  | cons o os ih =>
    obtain ⟨first, others⟩ := List.forall_mem_cons.1 hos
    have between : ∀ w ∈ ws ++ [o], Update.Overwriting schema m.type w := by
      intro w hw
      rcases List.mem_append.1 hw with old | new
      · exact hws w old
      · rwa [List.mem_singleton.1 new]
    have joined (m' : Message) :
        (ws.foldl apply m').apply o = (ws ++ [o]).foldl apply m' := by
      rw [List.foldl_append]
      rfl
    have fits' : (m.apply o).Fits schema (schema.table m.type) := by
      cases o with
      | none => exact fits
      | some u => exact fits_apply fits (first u rfl).1
    have later : os.foldl apply ((ws ++ [o]).foldl apply (os.foldl apply (m.apply o))) =
        os.foldl apply ((ws ++ [o]).foldl apply (m.apply o)) := by
      rw [← type_apply m o] at fits' others between
      exact ih fits' others between
    rw [List.foldl_cons, List.foldl_cons, joined, later, List.foldl_cons, joined]
    congr 1
    rw [← joined, ← joined]
    cases o with
    | none => rfl
    | some u => exact apply_foldl_apply fits (first u rfl).1 (first u rfl).2 hws

/-- Updates that overwrite can be made twice. -/
theorem foldl_apply_foldl_apply (fits : m.Fits schema (schema.table m.type))
    (hos : ∀ o ∈ os, Update.Overwriting schema m.type o) :
    os.foldl apply (os.foldl apply m) = os.foldl apply m := by
  have nothing : ∀ o ∈ [], Update.Overwriting schema m.type o := by simp
  exact foldl_foldl_foldl_apply fits hos nothing

end Lists

end Message

end Protowire
