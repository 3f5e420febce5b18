import Protowire.Message.KeyOrder

set_option autoImplicit false

/-!
# Inserting in key order

Insertion keeps the entries of a map ascending. Keys that are equal in rank never stand next to
each other, since the new value then goes into the entry that is there.
-/

namespace Protowire.Entry

variable {key value : Value} {e : Entry} {es es' : List Entry}

abbrev Ascending (es : List Entry) : Prop := es.Pairwise fun a b => a.key.rank < b.key.rank

theorem rank_lt_of_not_lt {a b : List Int} (different : a ≠ b) (h : ¬ b < a) : a < b := by
  apply Classical.byContradiction
  intro h'
  exact different (List.le_antisymm (List.not_lt.1 h) (List.not_lt.1 h'))

theorem replace?_eq_none_iff :
    replace? key value es = none ↔ ∀ e ∈ es, e.key.rank ≠ key.rank := by
  induction es with
  | nil => simp [replace?]
  | cons first es ih =>
    unfold replace?
    split
    · next same => simp [same]
    · next different => simp [ih, different]

/-- Where a value is replaced, the keys stay what they are. -/
theorem map_key_replace? (h : replace? key value es = some es') :
    es'.map Entry.key = es.map Entry.key := by
  induction es generalizing es' with
  | nil => cases h
  | cons first es ih =>
    unfold replace? at h
    split at h
    · cases h
      rfl
    · obtain ⟨rest, replaced, rfl⟩ := Option.map_eq_some_iff.1 h
      rw [List.map_cons, List.map_cons, ih replaced]

theorem value_of_mem_replace? (h : replace? key value es = some es') (he : e ∈ es') :
    e.value = value ∨ e ∈ es := by
  induction es generalizing es' with
  | nil => cases h
  | cons first es ih =>
    unfold replace? at h
    split at h
    · cases h
      rcases List.mem_cons.1 he with rfl | later
      · exact .inl rfl
      · exact .inr (List.mem_cons_of_mem _ later)
    · obtain ⟨rest, replaced, rfl⟩ := Option.map_eq_some_iff.1 h
      rcases List.mem_cons.1 he with rfl | later
      · exact .inr List.mem_cons_self
      · exact (ih replaced later).imp_right (List.mem_cons_of_mem _)

theorem mem_place (he : e ∈ place key value es) : e = ⟨key, value⟩ ∨ e ∈ es := by
  rcases List.mem_append.1 he with before | behind
  · exact .inr (List.takeWhile_subset _ before)
  · rcases List.mem_cons.1 behind with rfl | behind
    · exact .inl rfl
    · exact .inr (List.dropWhile_subset _ behind)

theorem key_of_mem_insert (he : e ∈ insert key value es) :
    e.key = key ∨ ∃ old ∈ es, e.key = old.key := by
  unfold insert at he
  cases h : replace? key value es with
  | none =>
    rw [h] at he
    rcases mem_place he with rfl | old
    · exact .inl rfl
    · exact .inr ⟨e, old, rfl⟩
  | some es' =>
    rw [h] at he
    have keys : e.key ∈ es'.map Entry.key := List.mem_map_of_mem he
    rw [map_key_replace? h] at keys
    obtain ⟨old, ho, same⟩ := List.mem_map.1 keys
    exact .inr ⟨old, ho, same.symm⟩

theorem value_of_mem_insert (he : e ∈ insert key value es) :
    e.value = value ∨ ∃ old ∈ es, e.value = old.value := by
  unfold insert at he
  cases h : replace? key value es with
  | none =>
    rw [h] at he
    rcases mem_place he with rfl | old
    · exact .inl rfl
    · exact .inr ⟨e, old, rfl⟩
  | some es' =>
    rw [h] at he
    rcases value_of_mem_replace? h he with new | old
    · exact .inl new
    · exact .inr ⟨e, old, rfl⟩

/-- Everything behind the place of a key that is not there is greater, since the first entry
behind it is and the entries ascend. -/
theorem key_lt_of_mem_dropWhile (sorted : Ascending es)
    (he : e ∈ es.dropWhile fun e => decide (¬ key.rank < e.key.rank)) :
    key.rank < e.key.rank := by
  induction es with
  | nil => cases he
  | cons first es ih =>
    obtain ⟨first_lt, sorted⟩ := List.pairwise_cons.1 sorted
    by_cases before : key.rank < first.key.rank
    · rw [List.dropWhile_cons_of_neg (by simp [before])] at he
      rcases List.mem_cons.1 he with rfl | later
      · exact before
      · exact List.lt_trans before (first_lt e later)
    · rw [List.dropWhile_cons_of_pos (by simpa using before)] at he
      exact ih sorted he

theorem ascending_place (sorted : Ascending es) (new : ∀ e ∈ es, e.key.rank ≠ key.rank) :
    Ascending (place key value es) := by
  have before : ∀ e ∈ es.takeWhile fun e => decide (¬ key.rank < e.key.rank),
      e.key.rank < key.rank := by
    intro e he
    have all := List.all_eq_true.1 (List.all_takeWhile (l := es)) e he
    exact rank_lt_of_not_lt (new e (List.takeWhile_subset _ he)) (of_decide_eq_true all)
  have behind : ∀ e ∈ es.dropWhile fun e => decide (¬ key.rank < e.key.rank),
      key.rank < e.key.rank := fun e he => key_lt_of_mem_dropWhile sorted he
  refine List.pairwise_append.2 ⟨?_, ?_, ?_⟩
  · exact sorted.sublist (List.takeWhile_sublist _)
  · exact List.pairwise_cons.2 ⟨behind, sorted.sublist (List.dropWhile_sublist _)⟩
  · intro a ha b hb
    rcases List.mem_cons.1 hb with rfl | hb
    · exact before a ha
    · exact List.lt_trans (before a ha) (behind b hb)

theorem ascending_insert (sorted : Ascending es) : Ascending (insert key value es) := by
  unfold insert
  cases h : replace? key value es with
  | none => exact ascending_place sorted (replace?_eq_none_iff.1 h)
  | some es' =>
    have keys : (es.map Entry.key).Pairwise fun a b => a.rank < b.rank :=
      List.pairwise_map.2 sorted
    rw [← map_key_replace? h, List.pairwise_map] at keys
    exact keys

/-- A key greater than all others goes to the end. -/
theorem insert_of_forall_lt (h : ∀ e ∈ es, e.key.rank < key.rank) :
    insert key value es = es ++ [⟨key, value⟩] := by
  have different : replace? key value es = none := by
    refine replace?_eq_none_iff.2 fun e he same => List.lt_irrefl key.rank ?_
    have less := h e he
    rwa [same] at less
  have before : ∀ e ∈ es, decide (¬ key.rank < e.key.rank) = true := by
    intro e he
    refine decide_eq_true fun greater => ?_
    exact List.lt_irrefl _ (List.lt_trans greater (h e he))
  have taken : es.takeWhile (fun e => decide (¬ key.rank < e.key.rank)) = es := by
    simpa using @List.takeWhile_append_of_pos _ _ es [] before
  have dropped : es.dropWhile (fun e => decide (¬ key.rank < e.key.rank)) = [] := by
    simpa using @List.dropWhile_append_of_pos _ _ es [] before
  rw [insert, different, Option.getD_none, place, taken, dropped]

end Protowire.Entry
