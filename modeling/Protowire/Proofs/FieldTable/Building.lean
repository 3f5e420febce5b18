import Mathlib.Data.List.Induction
import Protowire.Proofs.FieldTable
import Protowire.Proofs.Read.Tag

set_option autoImplicit false

/-!
# Building tables

A table is refused exactly when one of its fields is at fault where it is declared, and the first
such field says why. A table that is built lists its fields as they were declared and finds each of
them by its number.
-/

namespace Protowire

/-- Floating point numbers, byte strings and messages. -/
def Kind.NoMapKey (k : Kind) : Prop :=
  k = .scalar .float ∨ k = .scalar .double ∨ k = .scalar .bytes ∨ ∃ type, k = .message type

theorem Kind.isMapKey_eq_false_iff {k : Kind} : k.isMapKey = false ↔ k.NoMapKey := by
  cases k with
  | scalar t => cases t <;> simp [isMapKey, ScalarType.isMapKey, NoMapKey]
  | message type => simp [isMapKey, NoMapKey]

namespace FieldSpec

def OutOfRange (spec : FieldSpec) : Prop := spec.number < 1 ∨ 127 < spec.number

/-- One of the fields `before` has the number already. -/
def Reuses (before : List FieldSpec) (spec : FieldSpec) : Prop :=
  ∃ earlier ∈ before, earlier.number = spec.number

def Miskeyed (spec : FieldSpec) : Prop := ∃ key, spec.cardinality = .map key ∧ key.NoMapKey

/-- Something is wrong with the field, declared behind the fields `before`. -/
def AtFault (before : List FieldSpec) (spec : FieldSpec) : Prop :=
  spec.OutOfRange ∨ spec.Reuses before ∨ spec.Miskeyed

/-- What is said of a field that is at fault; of several faults only the first in this order. -/
inductive Refused (table : String) (before : List FieldSpec) (spec : FieldSpec) : SchemaError → Prop
  | outOfRange : spec.OutOfRange →
      Refused table before spec (.fieldNumberOutOfRange table spec.number)
  | duplicate : ¬ spec.OutOfRange → spec.Reuses before →
      Refused table before spec (.duplicateFieldNumber table spec.number)
  | mapKey {key : Kind} : ¬ spec.OutOfRange → ¬ spec.Reuses before →
      spec.cardinality = .map key → key.NoMapKey →
      Refused table before spec (.invalidMapKey table spec.number key)

variable {table : String} {before : List FieldSpec} {spec : FieldSpec}

theorem exists_refused_iff : (∃ e, spec.Refused table before e) ↔ spec.AtFault before := by
  constructor
  · rintro ⟨e, refused⟩
    cases refused with
    | outOfRange out => exact .inl out
    | duplicate _ reuses => exact .inr (.inl reuses)
    | mapKey _ _ cardinality wrong => exact .inr (.inr ⟨_, cardinality, wrong⟩)
  · intro fault
    by_cases out : spec.OutOfRange
    · exact ⟨_, .outOfRange out⟩
    · by_cases reuses : spec.Reuses before
      · exact ⟨_, .duplicate out reuses⟩
      · obtain ⟨key, cardinality, wrong⟩ := (fault.resolve_left out).resolve_left reuses
        exact ⟨_, .mapKey out reuses cardinality wrong⟩

theorem ofUInt32?_eq_none_iff : FieldNumber.ofUInt32? spec.number = none ↔ spec.OutOfRange := by
  have outside : spec.OutOfRange ↔ ¬ (1 ≤ spec.number ∧ spec.number ≤ 127) := by
    rw [OutOfRange, ← UInt32.not_le, ← UInt32.not_le]
    exact Decidable.not_and_iff_not_or_not.symm
  rw [outside, FieldNumber.ofUInt32?]
  split
  · next inside => simp [inside]
  · next outside => simp [outside]

theorem exists_number (inside : ¬ spec.OutOfRange) :
    ∃ number, FieldNumber.ofUInt32? spec.number = some number := by
  rw [← ofUInt32?_eq_none_iff] at inside
  exact Option.ne_none_iff_exists'.1 inside

/-- No field is at fault behind those in front of it. -/
def Declarable (specs : List FieldSpec) : Prop :=
  ∀ before spec after, specs = before ++ spec :: after → ¬ spec.AtFault before

theorem declarable_concat {specs : List FieldSpec} (h : Declarable specs)
    (last : ¬ spec.AtFault specs) : Declarable (specs ++ [spec]) := by
  intro before other after split
  rcases List.eq_nil_or_concat after with rfl | ⟨after, final, rfl⟩
  · obtain ⟨rfl, same⟩ := List.append_inj' split rfl
    obtain rfl := List.head_eq_of_cons_eq same
    exact last
  · rw [List.concat_eq_append, ← List.cons_append, ← List.append_assoc] at split
    exact h before other after (List.append_inj' split rfl).1

end FieldSpec

/-- The field that the slot was declared as. -/
def FieldSlot.spec (field : FieldSlot) : FieldSpec :=
  ⟨field.number.val, field.name, field.cardinality, field.kind⟩

namespace FieldTable

variable {t : FieldTable} {before : List FieldSpec} {spec : FieldSpec} {e : SchemaError}

/-- A number is taken by the fields that were declared with it. -/
theorem Consistent.isSome_byNumber_iff (h : t.Consistent)
    (lists : t.slots.map FieldSlot.spec = before) {number : FieldNumber}
    (numbered : FieldNumber.ofUInt32? spec.number = some number)
    (inside : number.val.toNat < 128) :
    t.byNumber[number.val.toNat].isSome = true ↔ spec.Reuses before := by
  have entry : t.byNumber[number.val.toNat]? = some t.byNumber[number.val.toNat] :=
    Vector.getElem?_eq_getElem inside
  have same := FieldNumber.ofUInt32?_eq_some_iff.1 numbered
  constructor
  · intro used
    obtain ⟨i, taken⟩ := Option.isSome_iff_exists.1 used
    rw [taken] at entry
    obtain ⟨field, slot, value⟩ := h.found entry
    refine ⟨field.spec, ?_, ?_⟩
    · rw [← lists]
      exact List.mem_map_of_mem (List.mem_of_getElem? slot)
    · rw [same]
      exact UInt32.toNat_inj.1 value
  · rintro ⟨earlier, declared, value⟩
    rw [← lists] at declared
    obtain ⟨field, mem, rfl⟩ := List.mem_map.1 declared
    obtain ⟨i, slot⟩ := List.getElem?_of_mem mem
    have listed := h.listed slot
    have number_eq : field.number.val = number.val := value.trans same
    rw [number_eq, entry, Option.some.injEq] at listed
    rw [listed]
    rfl

/-- What the field is refused for is what is said. -/
theorem add_of_refused (h : t.Consistent) (lists : t.slots.map FieldSlot.spec = before)
    (refused : spec.Refused t.name before e) : t.add spec = .error e := by
  cases refused with
  | outOfRange out =>
    unfold add
    rw [FieldSpec.ofUInt32?_eq_none_iff.2 out]
  | duplicate inside reuses =>
    obtain ⟨number, numbered⟩ := FieldSpec.exists_number inside
    have used := (h.isSome_byNumber_iff lists numbered number.toNat_lt).2 reuses
    unfold add
    rw [numbered]
    exact if_pos used
  | mapKey inside fresh cardinality wrong =>
    obtain ⟨number, numbered⟩ := FieldSpec.exists_number inside
    have free := mt (h.isSome_byNumber_iff lists numbered number.toNat_lt).1 fresh
    have keyless := Kind.isMapKey_eq_false_iff.2 wrong
    unfold add
    rw [numbered]
    simp only [if_neg free, cardinality, keyless, Bool.false_eq_true, if_false]

/-- A field with which nothing is wrong is added behind the others. -/
theorem exists_add (h : t.Consistent) (lists : t.slots.map FieldSlot.spec = before)
    (sound : ¬ spec.AtFault before) : ∃ t', t.add spec = .ok t' := by
  obtain ⟨inside, fresh, keyed⟩ : ¬ spec.OutOfRange ∧ ¬ spec.Reuses before ∧ ¬ spec.Miskeyed := by
    simpa only [FieldSpec.AtFault, not_or] using sound
  obtain ⟨number, numbered⟩ := FieldSpec.exists_number inside
  have free := mt (h.isSome_byNumber_iff lists numbered number.toNat_lt).1 fresh
  refine ⟨_, add_eq_ok_iff.2 ⟨number, numbered, ?_, ?_, rfl⟩⟩
  · rw [Vector.getElem?_eq_getElem number.toNat_lt]
    simpa using free
  · intro key cardinality
    cases valid : key.isMapKey with
    | true => rfl
    | false => exact absurd ⟨key, cardinality, Kind.isMapKey_eq_false_iff.1 valid⟩ keyed

/-- All that adding a field can say. -/
theorem add_eq_error_iff (h : t.Consistent) (lists : t.slots.map FieldSlot.spec = before) :
    t.add spec = .error e ↔ spec.Refused t.name before e := by
  constructor
  · intro failed
    by_cases fault : spec.AtFault before
    · obtain ⟨e', refused⟩ := FieldSpec.exists_refused_iff.2 fault
      have said := add_of_refused h lists refused
      rw [failed] at said
      cases said
      exact refused
    · obtain ⟨t', added⟩ := exists_add h lists fault
      rw [failed] at added
      cases added
  · exact add_of_refused h lists

variable {name : String} {specs : List FieldSpec}

theorem build_concat (name : String) (specs : List FieldSpec) (spec : FieldSpec) :
    build name (specs ++ [spec]) = build name specs >>= fun t => t.add spec := by
  rw [build, List.foldlM_append]
  exact congrArg (build name specs >>= ·) (funext fun t => bind_pure (t.add spec))

theorem build_append (name : String) (specs more : List FieldSpec) :
    build name (specs ++ more) = build name specs >>= more.foldlM add :=
  List.foldlM_append ..

/-- The slots are the fields in the order of their declaration, and none of these was at fault. -/
theorem listed_of_build (built : build name specs = .ok t) :
    t.name = name ∧ t.slots.map FieldSlot.spec = specs ∧ FieldSpec.Declarable specs := by
  induction specs using List.reverseRecOn generalizing t with
  | nil =>
    cases built
    exact ⟨rfl, rfl, fun before spec after split => by simp at split⟩
  | append_singleton specs spec ih =>
    rw [build_concat] at built
    obtain ⟨front, earlier, added⟩ := Result.bind_eq_ok_iff.1 built
    obtain ⟨named, lists, declarable⟩ := ih earlier
    have consistent : front.Consistent := Built.consistent ⟨name, specs, earlier⟩
    have sound : ¬ spec.AtFault specs := by
      intro fault
      obtain ⟨e, refused⟩ := FieldSpec.exists_refused_iff.2 fault
      rw [add_of_refused consistent lists refused] at added
      cases added
    obtain ⟨number, numbered, -, -, rfl⟩ := add_eq_ok_iff.1 added
    refine ⟨named, ?_, FieldSpec.declarable_concat declarable sound⟩
    rw [List.map_append, lists, List.map_singleton]
    simp only [FieldSlot.spec, ← FieldNumber.ofUInt32?_eq_some_iff.1 numbered]

/-- Where building fails, the first field at fault is refused. -/
theorem exists_refused_of_build (failed : build name specs = .error e) :
    ∃ before spec after, specs = before ++ spec :: after ∧ FieldSpec.Declarable before ∧
      spec.Refused name before e := by
  induction specs using List.reverseRecOn with
  | nil => cases failed
  | append_singleton specs spec ih =>
    rw [build_concat] at failed
    cases earlier : build name specs with
    | error e' =>
      rw [earlier] at failed
      cases failed
      obtain ⟨before, first, after, rfl, declarable, refused⟩ := ih earlier
      exact ⟨before, first, after ++ [spec], by simp, declarable, refused⟩
    | ok front =>
      rw [earlier, Result.ok_bind] at failed
      obtain ⟨named, lists, declarable⟩ := listed_of_build earlier
      have consistent : front.Consistent := Built.consistent ⟨name, specs, earlier⟩
      have refused := (add_eq_error_iff consistent lists).1 failed
      rw [named] at refused
      exact ⟨specs, spec, [], rfl, declarable, refused⟩

/-- The fields in front of the first that is at fault form a table, which refuses it. -/
theorem build_of_refused {after : List FieldSpec} (declarable : FieldSpec.Declarable before)
    (refused : spec.Refused name before e) :
    build name (before ++ spec :: after) = .error e := by
  cases front : build name before with
  | error e' =>
    obtain ⟨front, first, rest, split, -, refused⟩ := exists_refused_of_build front
    exact absurd (FieldSpec.exists_refused_iff.1 ⟨_, refused⟩) (declarable front first rest split)
  | ok t =>
    obtain ⟨named, lists, -⟩ := listed_of_build front
    have consistent : t.Consistent := Built.consistent ⟨name, before, front⟩
    rw [← named] at refused
    rw [build_append, front, Result.ok_bind, List.foldlM_cons,
      add_of_refused consistent lists refused]
    rfl

/-- Which lists of fields have a table, what is said of the others, and what the table holds. -/
theorem build_exact (name : String) (specs : List FieldSpec) :
    ((∃ e, build name specs = .error e) ↔
      ∃ before spec after, specs = before ++ spec :: after ∧ spec.AtFault before) ∧
    (∀ e, build name specs = .error e ↔
      ∃ before spec after, specs = before ++ spec :: after ∧ FieldSpec.Declarable before ∧
        spec.Refused name before e) ∧
    ∀ t, build name specs = .ok t →
      t.name = name ∧ t.slots.map FieldSlot.spec = specs ∧ t.slots.length ≤ 127 ∧
      (∀ (i : Nat) (field : FieldSlot), t.slots[i]? = some field → field.index = i) ∧
      (∀ number, (∃ field, t.slotByNumber? number = some field) ↔
        ∃ spec ∈ specs, spec.number = number) ∧
      ∀ i spec, specs[i]? = some spec → ∃ field, t.slots[i]? = some field ∧ field.spec = spec ∧
        t.slotByNumber? spec.number = some field ∧
        ∃ place, t.byNumber[spec.number.toNat]? = some (some place) ∧ place.toNat = i := by
  have exact (e : SchemaError) : build name specs = .error e ↔
      ∃ before spec after, specs = before ++ spec :: after ∧ FieldSpec.Declarable before ∧
        spec.Refused name before e := by
    constructor
    · exact exists_refused_of_build
    · rintro ⟨before, spec, after, rfl, declarable, refused⟩
      exact build_of_refused declarable refused
  refine ⟨?fails, exact, ?holds⟩
  case fails =>
    constructor
    · rintro ⟨e, failed⟩
      obtain ⟨before, spec, after, split, -, refused⟩ := (exact e).1 failed
      exact ⟨before, spec, after, split, FieldSpec.exists_refused_iff.1 ⟨e, refused⟩⟩
    · rintro ⟨before, spec, after, split, fault⟩
      cases built : build name specs with
      | error e => exact ⟨e, rfl⟩
      | ok t => exact absurd fault ((listed_of_build built).2.2 before spec after split)
  case holds =>
    intro t built
    have h : t.Consistent := Built.consistent ⟨name, specs, built⟩
    obtain ⟨named, lists, -⟩ := listed_of_build built
    refine ⟨named, lists, h.length_le, fun _ _ slot => h.index slot, ?numbers, ?slots⟩
    case numbers =>
      intro number
      simp only [h.slotByNumber?_iff, ← lists, List.mem_map, exists_exists_and_eq_and,
        FieldSlot.spec]
    case slots =>
      intro i spec declared
      rw [← lists, List.getElem?_map, Option.map_eq_some_iff] at declared
      obtain ⟨field, slot, rfl⟩ := declared
      have inside := (List.getElem?_eq_some_iff.1 slot).1
      refine ⟨field, slot, rfl, ?_, _, h.listed slot, h.toNat_ofNat (Nat.le_of_lt inside)⟩
      exact h.slotByNumber?_iff.2 ⟨List.mem_of_getElem? slot, rfl⟩

/-- A field that has the number of another one and floating point keys, in front of one whose number
no field can have. -/
theorem build_exact_clash :
    let specs : List FieldSpec := [⟨127, "ratios", .repeated, .scalar .double⟩,
      ⟨3, "labels", .map (.scalar .string), .message 0⟩]
    let clash : FieldSpec := ⟨127, "weights", .map (.scalar .float), .scalar .bool⟩
    (∃ t, build "node" specs = .ok t ∧
      ∃ field, t.slotByNumber? 3 = some field ∧ field.name = "labels" ∧ field.index = 1) ∧
    build "node" (specs ++ clash :: [⟨0, "none", .single, .scalar .bool⟩]) =
      .error (.duplicateFieldNumber "node" 127) := by
  intro specs clash
  obtain ⟨t, built⟩ : ∃ t, build "node" specs = .ok t := ⟨_, rfl⟩
  have table := build_exact "node" specs
  constructor
  · obtain ⟨-, -, -, places, -, found⟩ := table.2.2 t built
    obtain ⟨field, slot, declared, leads, -⟩ :=
      found 1 ⟨3, "labels", .map (.scalar .string), .message 0⟩ rfl
    exact ⟨t, built, field, leads, congrArg FieldSpec.name declared, places 1 field slot⟩
  · have declarable : FieldSpec.Declarable specs := by
      intro before spec after split fault
      obtain ⟨e, failed⟩ := table.1.2 ⟨before, spec, after, split, fault⟩
      rw [built] at failed
      cases failed
    have inside : ¬ clash.OutOfRange := by
      rintro (below | above)
      · exact absurd below (by decide)
      · exact absurd above (by decide)
    exact ((build_exact "node" _).2.1 _).2
      ⟨specs, clash, _, rfl, declarable, .duplicate inside ⟨_, List.mem_cons_self, rfl⟩⟩

end FieldTable

end Protowire
