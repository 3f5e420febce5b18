import Mathlib.Data.List.Sort
import Protowire.Proofs.Message.Update
import Protowire.Proofs.Payload

set_option autoImplicit false

/-!
# The last write wins

Keys of one kind are told apart by their rank, so that an insertion replaces the entry with its key
and no other. After any number of insertions a map has the latest value for each key that was
written, and its old entries for all others.
-/

namespace Protowire

theorem Utf8.eq_of_encode_eq {s t : String} (h : encode s = encode t) : s = t := by
  have read : decode (encode s) = .ok t := Utf8.decode_eq_ok_iff.2 h
  exact Except.ok.inj ((Utf8.decode_eq_ok_iff.2 rfl).symm.trans read)

theorem Scalar.eq_of_rank_eq {s t : Scalar} (variant : s.variant = t.variant)
    (h : s.rank = t.rank) : s = t := by
  have bytes {a b : Bytes} (h : a.map (fun x => (x.toNat : Int)) = b.map fun x => (x.toNat : Int)) :
      a = b :=
    List.map_injective_iff.2 (fun x y same => UInt8.toNat_inj.1 (Int.ofNat.inj same)) h
  cases s <;> cases t <;> cases variant
  case i32.i32.refl v w => simpa [rank, Int32.toInt_inj] using h
  case i64.i64.refl v w => simpa [rank, Int64.toInt_inj] using h
  case u32.u32.refl v w => rw [@UInt32.toNat_inj v w |>.1 (by simpa [rank, Int.ofNat_inj] using h)]
  case u64.u64.refl v w => rw [@UInt64.toNat_inj v w |>.1 (by simpa [rank, Int.ofNat_inj] using h)]
  case bool.bool.refl a b => cases a <;> cases b <;> simp_all [rank]
  case f32.f32.refl v w => rw [@UInt32.toNat_inj v w |>.1 (by simpa [rank, Int.ofNat_inj] using h)]
  case f64.f64.refl v w => rw [@UInt64.toNat_inj v w |>.1 (by simpa [rank, Int.ofNat_inj] using h)]
  case string.string.refl s t => rw [Utf8.eq_of_encode_eq (bytes (List.cons.inj h).2)]
  case bytes.bytes.refl a b => rw [bytes (List.cons.inj h).2]

/-- Values with the property are told apart by their rank. -/
def Value.Ranked (p : Value → Prop) : Prop :=
  ∀ a b : Value, p a → p b → a.rank = b.rank → a = b

theorem Kind.ranked_of_isMapKey {schema : Schema} {k : Kind} (h : k.isMapKey = true) :
    Value.Ranked (k.Holds schema) := by
  intro a b ha hb same
  cases ha with
  | scalar variant =>
    cases hb with
    | scalar variant' => rw [Scalar.eq_of_rank_eq (variant.trans variant'.symm) same]
  | message _ => cases h

namespace Entry

variable {p : Value → Prop} {key value : Value} {e : Entry} {es es' : List Entry}

theorem holds_key_insert (hk : p key) (keys : ∀ e ∈ es, p e.key) :
    ∀ e ∈ insert key value es, p e.key := by
  intro e he
  rcases key_of_mem_insert he with new | ⟨old, ho, same⟩
  · rwa [new]
  · rw [same]
    exact keys old ho

section Insert

variable (ranked : Value.Ranked p) (hk : p key) (keys : ∀ e ∈ es, p e.key)
include ranked hk keys

theorem mem_replace?_iff (sorted : Ascending es) (h : replace? key value es = some es') :
    e ∈ es' ↔ e = ⟨key, value⟩ ∨ e ∈ es ∧ e.key ≠ key := by
  induction es generalizing es' with
  | nil => cases h
  | cons first es ih =>
    obtain ⟨behind, sorted⟩ := List.pairwise_cons.1 sorted
    unfold replace? at h
    split at h
    · next same =>
      cases h
      obtain rfl : first.key = key := ranked _ _ (keys first List.mem_cons_self) hk same
      have later : ∀ e ∈ es, e.key ≠ first.key := by
        intro e he again
        have greater := behind e he
        rw [again] at greater
        exact List.lt_irrefl _ greater
      grind
    · next different =>
      obtain ⟨rest, replaced, rfl⟩ := Option.map_eq_some_iff.1 h
      have others := ih (fun e he => keys e (List.mem_cons_of_mem first he)) sorted replaced
      have distinct : first.key ≠ key := fun same => different (by rw [same])
      grind

/-- An insertion takes the place of the entry with the key. -/
theorem mem_insert_iff (sorted : Ascending es) :
    e ∈ insert key value es ↔ e = ⟨key, value⟩ ∨ e ∈ es ∧ e.key ≠ key := by
  unfold insert
  cases h : replace? key value es with
  | some es' => exact mem_replace?_iff ranked hk keys sorted h
  | none =>
    have new : ∀ e ∈ es, e.key ≠ key := by
      intro e he same
      exact replace?_eq_none_iff.1 h e he (by rw [same])
    have placed : e ∈ place key value es ↔ e = ⟨key, value⟩ ∨ e ∈ es := by
      simp only [place]
      rw [List.mem_append, List.mem_cons, or_left_comm, ← List.mem_append,
        List.takeWhile_append_dropWhile]
    rw [Option.getD_none, placed]
    grind

end Insert

/-- Ascending entries are told by which they are. -/
theorem eq_of_mem_iff (sorted : Ascending es) (sorted' : Ascending es')
    (h : ∀ e, e ∈ es ↔ e ∈ es') : es = es' := by
  have : Std.Irrefl fun a b : Entry => a.key.rank < b.key.rank := ⟨fun _ => List.lt_irrefl _⟩
  have : Std.Antisymm fun a b : Entry => a.key.rank < b.key.rank :=
    ⟨fun _ _ less greater => absurd greater (List.lt_asymm less)⟩
  exact sorted.eq_of_mem_iff sorted' h

/-- An insertion that is made again behind another one hides its first time. -/
theorem insert_insert_insert (ranked : Value.Ranked p) (sorted : Ascending es)
    (keys : ∀ e ∈ es, p e.key) (hk : p key) {key' value' : Value} (hk' : p key') :
    insert key value (insert key' value' (insert key value es)) =
      insert key value (insert key' value' es) := by
  have first := @ascending_insert key value es sorted
  have firstKeys := @holds_key_insert p key value es hk keys
  refine eq_of_mem_iff (ascending_insert (ascending_insert first))
    (ascending_insert (ascending_insert sorted)) fun e => ?_
  rw [mem_insert_iff ranked hk (holds_key_insert hk' firstKeys) (ascending_insert first),
    mem_insert_iff ranked hk' firstKeys first, mem_insert_iff ranked hk keys sorted,
    mem_insert_iff ranked hk (holds_key_insert hk' keys) (ascending_insert sorted),
    mem_insert_iff ranked hk' keys sorted]
  grind

/-- The entry is the last one with its key. -/
def Latest (es : List Entry) (e : Entry) : Prop :=
  ∃ before after, es = before ++ e :: after ∧ ∀ later ∈ after, later.key ≠ e.key

theorem latest_cons_iff {first : Entry} :
    Latest (first :: es) e ↔ Latest es e ∨ first = e ∧ ∀ later ∈ es, later.key ≠ e.key := by
  constructor
  · rintro ⟨before, after, split, last⟩
    cases before with
    | nil =>
      obtain ⟨rfl, rfl⟩ := List.cons.inj split
      exact .inr ⟨rfl, last⟩
    | cons _ before =>
      obtain ⟨rfl, rfl⟩ := List.cons.inj split
      exact .inl ⟨before, after, rfl, last⟩
  · rintro (⟨before, after, rfl, last⟩ | ⟨rfl, last⟩)
    · exact ⟨first :: before, after, rfl, last⟩
    · exact ⟨[], es, rfl, last⟩

theorem Latest.mem (h : Latest es e) : e ∈ es := by
  obtain ⟨before, after, rfl, -⟩ := h
  simp

/-- Whatever key is written, some entry is the last one with it. -/
theorem exists_latest (h : ∃ e ∈ es, e.key = key) : ∃ e, Latest es e ∧ e.key = key := by
  induction es with
  | nil =>
    obtain ⟨e, he, -⟩ := h
    cases he
  | cons first es ih =>
    by_cases again : ∃ e ∈ es, e.key = key
    · obtain ⟨e, latest, same⟩ := ih again
      exact ⟨e, latest_cons_iff.2 (.inl latest), same⟩
    · obtain ⟨e, he, rfl⟩ := h
      rcases List.mem_cons.1 he with rfl | later
      · exact ⟨e, latest_cons_iff.2 (.inr ⟨rfl, fun e' he' same => again ⟨e', he', same⟩⟩), rfl⟩
      · exact absurd ⟨e, later, rfl⟩ again

/-- All entries inserted one after the other. -/
def insertAll (es new : List Entry) : List Entry :=
  new.foldl (fun es e => insert e.key e.value es) es

theorem ascending_insertAll {new : List Entry} (sorted : Ascending es) :
    Ascending (insertAll es new) := by
  induction new generalizing es with
  | nil => exact sorted
  | cons first new ih => exact ih (ascending_insert sorted)

theorem mem_insertAll_iff {new : List Entry} (ranked : Value.Ranked p) (sorted : Ascending es)
    (keys : ∀ e ∈ es, p e.key) (newKeys : ∀ e ∈ new, p e.key) :
    e ∈ insertAll es new ↔ Latest new e ∨ e ∈ es ∧ ∀ later ∈ new, later.key ≠ e.key := by
  induction new generalizing es with
  | nil =>
    have nothing : ¬ Latest [] e := fun latest => List.not_mem_nil latest.mem
    simp [insertAll, nothing]
  | cons first new ih =>
    obtain ⟨key, value⟩ := first
    have hk : p key := newKeys _ List.mem_cons_self
    have others := fun e he => newKeys e (List.mem_cons_of_mem _ he)
    change e ∈ insertAll (insert key value es) new ↔ _
    rw [ih (ascending_insert sorted) (holds_key_insert hk keys) others,
      mem_insert_iff ranked hk keys sorted, latest_cons_iff, List.forall_mem_cons]
    -- an entry of the first insertion stays unless a later one has its key
    constructor
    · rintro (latest | ⟨rfl | ⟨old, other⟩, unwritten⟩)
      · exact .inl (.inl latest)
      · exact .inl (.inr ⟨rfl, unwritten⟩)
      · exact .inr ⟨old, other.symm, unwritten⟩
    · rintro ((latest | ⟨rfl, unwritten⟩) | ⟨old, other, unwritten⟩)
      · exact .inl latest
      · exact .inr ⟨.inl rfl, unwritten⟩
      · exact .inr ⟨.inr ⟨old, other.symm⟩, unwritten⟩

/-- The keys are the old ones and those that were written. -/
theorem exists_key_insertAll_iff {new : List Entry} (ranked : Value.Ranked p)
    (sorted : Ascending es) (keys : ∀ e ∈ es, p e.key) (newKeys : ∀ e ∈ new, p e.key) :
    (∃ e ∈ insertAll es new, e.key = key) ↔ (∃ e ∈ es, e.key = key) ∨ ∃ e ∈ new, e.key = key := by
  simp only [mem_insertAll_iff ranked sorted keys newKeys]
  constructor
  · rintro ⟨e, latest | ⟨old, -⟩, same⟩
    · exact .inr ⟨e, latest.mem, same⟩
    · exact .inl ⟨e, old, same⟩
  · intro h
    by_cases written : ∃ e ∈ new, e.key = key
    · obtain ⟨e, latest, same⟩ := exists_latest written
      exact ⟨e, .inl latest, same⟩
    · obtain ⟨e, old, same⟩ := h.resolve_right written
      refine ⟨e, .inr ⟨old, fun later hl again => ?_⟩, same⟩
      exact written ⟨later, hl, again.trans same⟩

end Entry

end Protowire
