import Protowire.Proofs.Result
import Protowire.Schema

set_option autoImplicit false

/-!
# Built tables

What holds of every table that was built: a slot knows its own place, each number has at most one
slot and leads to it, and maps have keys that can be keys. Adding a field keeps all of it.
-/

namespace Protowire.FieldTable

structure Consistent (t : FieldTable) : Prop where
  index : ∀ {i : Nat} {field : FieldSlot}, t.slots[i]? = some field → field.index = i
  distinct : t.slots.Pairwise fun a b => a.number.val.toNat ≠ b.number.val.toNat
  listed : ∀ {i : Nat} {field : FieldSlot}, t.slots[i]? = some field →
    t.byNumber[field.number.val.toNat]? = some (some (UInt8.ofNat i))
  found : ∀ {n : Nat} {i : UInt8}, t.byNumber[n]? = some (some i) →
    ∃ field, t.slots[i.toNat]? = some field ∧ field.number.val.toNat = n
  keys : ∀ {field : FieldSlot} {key : Kind}, field ∈ t.slots → field.cardinality = .map key →
    key.isMapKey = true

theorem consistent_empty (name : String) : (empty name).Consistent where
  index h := by cases h
  distinct := .nil
  listed h := by cases h
  found {n i} h := by
    have none : (empty name).byNumber[n]? = if n < 128 then some none else none :=
      Vector.getElem?_replicate
    rw [none] at h
    split at h <;> cases h
  keys h := by cases h

theorem Consistent.getElem?_index {t : FieldTable} (h : t.Consistent) {field : FieldSlot}
    (declared : field ∈ t.slots) : t.slots[field.index]? = some field := by
  obtain ⟨i, hi⟩ := List.getElem?_of_mem declared
  rwa [h.index hi]

/-- There are no more slots than numbers, so a byte is enough for their places. -/
theorem Consistent.length_le {t : FieldTable} (h : t.Consistent) : t.slots.length ≤ 127 := by
  have distinct : (t.slots.map fun field => field.number.val.toNat).Nodup :=
    List.pairwise_map.2 h.distinct
  have bounded : (t.slots.map fun field => field.number.val.toNat) ⊆ List.range' 1 127 := by
    intro n hn
    obtain ⟨field, -, rfl⟩ := List.mem_map.1 hn
    have above := UInt32.le_iff_toNat_le.1 field.number.inRange.1
    have below := field.number.toNat_lt
    exact List.mem_range'_1.2 ⟨above, by omega⟩
  have length := distinct.length_le_of_subset bounded
  rwa [List.length_map, List.length_range'] at length

theorem Consistent.toNat_ofNat {t : FieldTable} (h : t.Consistent) {i : Nat}
    (hi : i ≤ t.slots.length) : (UInt8.ofNat i).toNat = i := by
  have bound := h.length_le
  rw [UInt8.toNat_ofNat']
  exact Nat.mod_eq_of_lt (by omega)

/-- All that adding a field can do. -/
theorem add_eq_ok_iff {t t' : FieldTable} {spec : FieldSpec} :
    t.add spec = .ok t' ↔ ∃ number : FieldNumber,
      FieldNumber.ofUInt32? spec.number = some number ∧
      t.byNumber[number.val.toNat]? = some none ∧
      (∀ key, spec.cardinality = .map key → key.isMapKey = true) ∧
      t' = ⟨t.name, t.slots ++ [⟨number, t.slots.length, spec.name, spec.cardinality, spec.kind⟩],
        t.byNumber.set number.val.toNat (some (UInt8.ofNat t.slots.length)) number.toNat_lt⟩ := by
  unfold add
  cases hn : FieldNumber.ofUInt32? spec.number with
  | none => simp
  | some number =>
    have inside : number.val.toNat < 128 := number.toNat_lt
    have free : t.byNumber[number.val.toNat]? = some none ↔
        ¬ t.byNumber[number.val.toNat].isSome = true := by
      rw [Vector.getElem?_eq_getElem inside]
      simp
    constructor
    · intro added
      simp only at added
      split at added
      · cases added
      · next unused =>
        refine ⟨number, rfl, free.2 unused, ?_⟩
        split at added
        · next key cardinality =>
          split at added
          · next valid =>
            cases added
            refine ⟨fun other h => ?_, rfl⟩
            obtain rfl : key = other := by simpa [cardinality] using h
            exact valid
          · cases added
        · next noMap =>
          cases added
          exact ⟨fun key h => (noMap key h).elim, rfl⟩
    · rintro ⟨_, same, unused, valid, rfl⟩
      cases same
      simp only
      rw [if_neg (free.1 unused)]
      split
      · next key cardinality => rw [if_pos (valid key cardinality)]
      · rfl

theorem slot_append_singleton {slots : List FieldSlot} {last field : FieldSlot} {i : Nat} :
    (slots ++ [last])[i]? = some field ↔
      slots[i]? = some field ∨ i = slots.length ∧ last = field := by
  rcases Nat.lt_trichotomy i slots.length with before | rfl | behind
  · rw [List.getElem?_append_left before]
    simp [Nat.ne_of_lt before]
  · simp
  · have both : (slots ++ [last]).length ≤ i := by simpa using Nat.succ_le_of_lt behind
    rw [List.getElem?_eq_none both, List.getElem?_eq_none (Nat.le_of_lt behind)]
    simp [Nat.ne_of_gt behind]

/-- The new field is the last one, and its number was free. -/
theorem Consistent.add {t t' : FieldTable} {spec : FieldSpec} (h : t.Consistent)
    (added : t.add spec = .ok t') : t'.Consistent := by
  obtain ⟨number, -, free, valid, rfl⟩ := add_eq_ok_iff.1 added
  have inside := number.toNat_lt
  have other : ∀ field ∈ t.slots, field.number.val.toNat ≠ number.val.toNat := by
    intro field hf same
    obtain ⟨i, hi⟩ := List.getElem?_of_mem hf
    have taken := h.listed hi
    rw [same, free] at taken
    cases taken
  refine ⟨?index, ?distinct, ?listed, ?found, ?keys⟩
  case index =>
    intro i field hi
    rcases slot_append_singleton.1 hi with old | ⟨rfl, rfl⟩
    · exact h.index old
    · rfl
  case distinct =>
    refine List.pairwise_append.2 ⟨h.distinct, List.pairwise_singleton _ _, ?_⟩
    intro a ha b hb
    obtain rfl := List.mem_singleton.1 hb
    exact other a ha
  case listed =>
    intro i field hi
    rcases slot_append_singleton.1 hi with old | ⟨rfl, rfl⟩
    · rw [Vector.getElem?_set_ne _ (other field (List.mem_of_getElem? old)).symm]
      exact h.listed old
    · exact Vector.getElem?_set_self inside
  case found =>
    intro n i hi
    by_cases same : number.val.toNat = n
    · subst same
      rw [Vector.getElem?_set_self, Option.some.injEq, Option.some.injEq] at hi
      subst hi
      refine ⟨_, slot_append_singleton.2 (.inr ⟨h.toNat_ofNat (Nat.le_refl _), rfl⟩), rfl⟩
    · rw [Vector.getElem?_set_ne _ same] at hi
      obtain ⟨field, slot, rfl⟩ := h.found hi
      exact ⟨field, slot_append_singleton.2 (.inl slot), rfl⟩
  case keys =>
    intro field key hf cardinality
    rcases List.mem_append.1 hf with old | new
    · exact h.keys old cardinality
    · obtain rfl := List.mem_singleton.1 new
      exact valid key cardinality

theorem consistent_of_foldlM {specs : List FieldSpec} {t t' : FieldTable} (h : t.Consistent)
    (added : specs.foldlM add t = .ok t') : t'.Consistent := by
  induction specs generalizing t with
  | nil =>
    cases added
    exact h
  | cons spec specs ih =>
    obtain ⟨next, first, others⟩ := Result.bind_eq_ok_iff.1 added
    exact ih (h.add first) others

theorem Built.consistent {t : FieldTable} (built : t.Built) : t.Consistent := by
  obtain ⟨name, specs, built⟩ := built
  exact consistent_of_foldlM (consistent_empty name) built

theorem number_eq_iff {a b : FieldNumber} : a = b ↔ a.val = b.val := by
  cases a
  cases b
  simp

theorem mem_of_slotByNumber? {t : FieldTable} {number : UInt32} {field : FieldSlot}
    (h : t.slotByNumber? number = some field) : field ∈ t.slots := by
  simp only [slotByNumber?, Option.bind_eq_bind, Option.bind_eq_some_iff] at h
  obtain ⟨_, -, _, -, slot⟩ := h
  exact List.mem_of_getElem? slot

/-- A number of any size leads to the slot that has it, if there is one. -/
theorem Consistent.slotByNumber?_iff {t : FieldTable} (h : t.Consistent) {number : UInt32}
    {field : FieldSlot} :
    t.slotByNumber? number = some field ↔ field ∈ t.slots ∧ field.number.val = number := by
  simp only [slotByNumber?, Option.bind_eq_bind, Option.bind_eq_some_iff]
  constructor
  · rintro ⟨_, entry, index, rfl, slot⟩
    obtain ⟨other, place, value⟩ := h.found entry
    obtain rfl : other = field := Option.some.inj (place.symm.trans slot)
    exact ⟨List.mem_of_getElem? slot, UInt32.toNat_inj.1 value⟩
  · rintro ⟨hf, rfl⟩
    obtain ⟨i, hi⟩ := List.getElem?_of_mem hf
    have inside := (List.getElem?_eq_some_iff.1 hi).1
    refine ⟨_, h.listed hi, _, rfl, ?_⟩
    rw [h.toNat_ofNat (Nat.le_of_lt inside), hi]

theorem Consistent.slotByNumber?_eq_some_iff {t : FieldTable} (h : t.Consistent)
    {number : FieldNumber} {field : FieldSlot} :
    t.slotByNumber? number.val = some field ↔ field ∈ t.slots ∧ field.number = number := by
  rw [h.slotByNumber?_iff, number_eq_iff]

end Protowire.FieldTable
