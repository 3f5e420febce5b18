import Protowire.Proofs.RoundTrip

set_option autoImplicit false

/-!
# Records that another table reads

A message that is written by one table can be read by another one, as long as the fields that both
declare are declared alike. The records of those fields fill their slots, wherever these are, and
all others are stepped over.
-/

namespace Protowire

/-- The fields hold the same, whatever they are called and wherever they stand. -/
structure FieldSlot.Alike (f g : FieldSlot) : Prop where
  cardinality : f.cardinality = g.cardinality
  kind : f.kind = g.kind

instance (f g : FieldSlot) : Decidable (f.Alike g) :=
  decidable_of_iff (f.cardinality = g.cardinality ∧ f.kind = g.kind)
    ⟨fun ⟨cardinality, kind⟩ => ⟨cardinality, kind⟩, fun h => ⟨h.cardinality, h.kind⟩⟩

/-- The table declares the number of the field for a field like it, or not at all. -/
def FieldTable.Admits (target : FieldTable) (f : FieldSlot) : Prop :=
  ∀ g ∈ target.slots, f.number = g.number → f.Alike g

/-- The slot that is stored for the field with the number. -/
def Slot.stored? (fields : List FieldSlot) (ss : List Slot) (n : FieldNumber) : Option Slot :=
  ((fields.zip ss).find? fun p => p.1.number = n).map Prod.snd

/-- The message of the type `target` with the fields of `m` that it declares too, and the defaults
of all that it declares besides. -/
def Message.carry (schema : Schema) (target : Nat) (m : Message) : Message :=
  ⟨target, (schema.table target).slots.map fun field =>
    (Slot.stored? (schema.table m.type).slots m.slots field.number).getD (Schema.freshSlot field)⟩

namespace Reference

variable (schema : Schema)

/-- The bytes of each record of a slot, and the update that it makes by the table `target`, if it
makes any. -/
def carriedSlot (target : FieldTable) (field : FieldSlot) (s : Slot) :
    List (Bytes × Option Update) :=
  match target.slotByNumber? field.number.val with
  | some other => (records schema other s).map fun p => (p.1, some p.2)
  | none => (records schema field s).map fun p => (p.1, none)

def carried (target : FieldTable) : List FieldSlot → List Slot → List (Bytes × Option Update)
  | field :: fields, s :: ss => carriedSlot schema target field s ++ carried target fields ss
  | _, _ => []

variable {schema} {f g : FieldSlot} {target : FieldTable} {fields : List FieldSlot}
  {ss : List Slot}

/-- The place of a field and its name are not written. -/
theorem slot_congr (number : f.number = g.number) (alike : f.Alike g) (s : Slot) :
    slot schema f s = slot schema g s := by
  obtain ⟨_, _, _, _, _⟩ := f
  obtain ⟨_, _, _, _, _⟩ := g
  cases number
  cases alike.cardinality
  cases alike.kind
  cases s <;> simp only [slot]

theorem flatMap_carriedSlot (consistent : target.Consistent) (admitted : target.Admits f)
    (s : Slot) : (carriedSlot schema target f s).flatMap Prod.fst = slot schema f s := by
  unfold carriedSlot
  split
  · next other found =>
    obtain ⟨declared, number⟩ := consistent.slotByNumber?_eq_some_iff.1 found
    rw [List.flatMap_map, slot_congr number.symm (admitted other declared number.symm),
      ← flatMap_records]
  · rw [List.flatMap_map, ← flatMap_records]

theorem flatMap_carried (consistent : target.Consistent)
    (admitted : ∀ f ∈ fields, target.Admits f) :
    (carried schema target fields ss).flatMap Prod.fst = slots schema fields ss := by
  induction fields generalizing ss with
  | nil => simp [carried, slots]
  | cons field fields ih =>
    cases ss with
    | nil => simp [carried, slots]
    | cons s ss =>
      rw [carried, slots, List.flatMap_append,
        flatMap_carriedSlot consistent (admitted field List.mem_cons_self),
        ih fun f hf => admitted f (List.mem_cons_of_mem _ hf)]

end Reference

namespace Slot

variable {fields : List FieldSlot} {ss : List Slot} {f : FieldSlot} {s : Slot}

theorem stored?_cons (n : FieldNumber) : stored? (f :: fields) (s :: ss) n =
    if f.number = n then some s else stored? fields ss n := by
  unfold stored?
  rw [List.zip_cons_cons, List.find?_cons]
  by_cases same : f.number = n <;> simp [same]

theorem stored?_eq_none {n : FieldNumber} (other : ∀ f ∈ fields, f.number ≠ n) :
    stored? fields ss n = none := by
  unfold stored?
  rw [Option.map_eq_none_iff, List.find?_eq_none]
  rintro ⟨f, s⟩ mem
  simpa using other f (List.of_mem_zip mem).1

theorem stored?_of_mem (distinct : fields.Pairwise fun a b => a.number ≠ b.number)
    (mem : (f, s) ∈ fields.zip ss) : stored? fields ss f.number = some s := by
  induction fields generalizing ss with
  | nil => cases mem
  | cons field fields ih =>
    cases ss with
    | nil => cases mem
    | cons s' ss =>
      obtain ⟨apart, others⟩ := List.pairwise_cons.1 distinct
      rw [stored?_cons]
      rcases List.mem_cons.1 mem with first | later
      · cases first
        exact if_pos rfl
      · rw [if_neg (apart f (List.of_mem_zip later).1)]
        exact ih others later

end Slot

theorem FieldSlot.Holds.congr {schema : Schema} {f g : FieldSlot} {s : Slot}
    (h : f.Holds schema s) (alike : f.Alike g) : g.Holds schema s := by
  obtain ⟨cardinality, kind⟩ := alike
  cases h with
  | unset single message => exact .unset (cardinality ▸ single) (kind ▸ message)
  | single single value => exact .single (cardinality ▸ single) (kind ▸ value)
  | repeated repeated values => exact .repeated (cardinality ▸ repeated) (kind ▸ values)
  | map map keys values sorted => exact .map (cardinality ▸ map) keys (kind ▸ values) sorted

theorem FieldTable.Consistent.distinct_numbers {t : FieldTable} (h : t.Consistent) :
    t.slots.Pairwise fun a b => a.number ≠ b.number :=
  h.distinct.imp fun different same => different (by rw [same])

namespace Message

variable {schema : Schema} {type : Nat} {target : FieldTable} {fields : List FieldSlot}
  {ss : List Slot} {base : FieldSlot → Slot}

/-- The records of one slot fill it, wherever it is, and leave all others. -/
theorem foldl_records_at (consistent : target.Consistent) {g : FieldSlot} {s : Slot}
    (declared : g ∈ target.slots) (holds : g.Holds schema s)
    (unfilled : base g = Schema.freshSlot g) :
    ((Reference.records schema g s).map fun p => some p.2).foldl apply
        ⟨type, target.slots.map base⟩ =
      ⟨type, target.slots.map fun h => if h.number = g.number then s else base h⟩ := by
  obtain ⟨before, behind, split⟩ := List.append_of_mem declared
  have place : target.slots[before.length]? = some g := by rw [split]; simp
  have index : g.index = (before.map base).length := by
    rw [consistent.index place, List.length_map]
  have distinct := consistent.distinct_numbers
  rw [split, List.pairwise_append, List.pairwise_cons] at distinct
  obtain ⟨-, ⟨later, -⟩, earlier⟩ := distinct
  have front : before.map (fun h => if h.number = g.number then s else base h) =
      before.map base :=
    List.map_congr_left fun h hh => if_neg (earlier h hh g List.mem_cons_self)
  have back : behind.map (fun h => if h.number = g.number then s else base h) =
      behind.map base :=
    List.map_congr_left fun h hh => if_neg (later h hh).symm
  rw [split, List.map_append, List.map_cons, unfilled, foldl_records holds index, List.map_append,
    List.map_cons, front, back, if_pos rfl]

theorem foldl_none {α : Type} (as : List α) (m : Message) :
    (as.map fun _ => none).foldl apply m = m := by
  induction as with
  | nil => rfl
  | cons a as ih => exact ih

theorem foldl_carriedSlot (consistent : target.Consistent) {f : FieldSlot} {s : Slot}
    (holds : f.Holds schema s)
    (admitted : target.Admits f)
    (unfilled : ∀ g ∈ target.slots, f.number = g.number → base g = Schema.freshSlot g) :
    ((Reference.carriedSlot schema target f s).map Prod.snd).foldl apply
        ⟨type, target.slots.map base⟩ =
      ⟨type, target.slots.map fun g => if f.number = g.number then s else base g⟩ := by
  unfold Reference.carriedSlot
  split
  · next other found =>
    obtain ⟨declared, number⟩ := consistent.slotByNumber?_eq_some_iff.1 found
    have alike := admitted other declared number.symm
    have filled := @foldl_records_at schema type target base consistent other s declared
      (holds.congr alike) (unfilled other declared number.symm)
    rw [List.map_map, ← number]
    simp only [eq_comm (a := other.number)]
    exact filled
  · next unknown =>
    have stays : target.slots.map (fun g => if f.number = g.number then s else base g) =
        target.slots.map base := by
      refine List.map_congr_left fun g hg => if_neg fun same => ?_
      rw [consistent.slotByNumber?_eq_some_iff.2 ⟨hg, same.symm⟩] at unknown
      cases unknown
    rw [stays, List.map_map]
    exact foldl_none _ _

/-- What has been written is filled in, and the rest stays as it is. -/
theorem foldl_carried (consistent : target.Consistent)
    (holds : List.Forall₂ (FieldSlot.Holds schema) fields ss)
    (admitted : ∀ f ∈ fields, target.Admits f)
    (distinct : fields.Pairwise fun a b => a.number ≠ b.number)
    (unfilled : ∀ f ∈ fields, ∀ g ∈ target.slots, f.number = g.number →
      base g = Schema.freshSlot g) :
    ((Reference.carried schema target fields ss).map Prod.snd).foldl apply
        ⟨type, target.slots.map base⟩ =
      ⟨type, target.slots.map fun g => (Slot.stored? fields ss g.number).getD (base g)⟩ := by
  -- what has been filled so far becomes part of the base that the other fields find
  induction holds generalizing base with
  | nil => rfl
  | @cons field s fields ss hs hss ih =>
    obtain ⟨apart, distinct⟩ := List.pairwise_cons.1 distinct
    have admitted' := fun f hf => admitted f (List.mem_cons_of_mem field hf)
    rw [Reference.carried, List.map_append, List.foldl_append,
      foldl_carriedSlot consistent hs (admitted field List.mem_cons_self)
        (unfilled field List.mem_cons_self), ih admitted' distinct]
    · congr 1
      refine List.map_congr_left fun g _ => ?_
      rw [Slot.stored?_cons]
      by_cases same : field.number = g.number
      · have other : ∀ f ∈ fields, f.number ≠ g.number := fun f hf => same ▸ (apart f hf).symm
        rw [if_pos same, if_pos same, Slot.stored?_eq_none other]
        rfl
      · rw [if_neg same, if_neg same]
    · intro f hf g hg same
      have other : field.number ≠ g.number := same ▸ apart f hf
      rw [if_neg other]
      exact unfilled f (List.mem_cons_of_mem field hf) g hg same

end Message

end Protowire
