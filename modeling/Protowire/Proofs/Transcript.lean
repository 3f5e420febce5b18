import Protowire.Proofs.Read
import Protowire.Transcript

set_option autoImplicit false

/-!
# What loops take

A loop over a read takes strings of the read's language one behind the other, and nothing else.
Where a turn fails, the loop fails.
-/

namespace Protowire

variable {α β : Type}

/-- Strings of the language one behind the other, with the values of all of them. -/
inductive Sequence (P : Bytes → α → Prop) : Bytes → List α → Prop
  | nil : Sequence P [] []
  | cons {first rest : Bytes} {a : α} {as : List α} :
      P first a → Sequence P rest as → Sequence P (first ++ rest) (a :: as)

theorem Sequence.congr {P Q : Bytes → α → Prop} (h : ∀ bytes a, P bytes a ↔ Q bytes a)
    {bytes : Bytes} {as : List α} : Sequence P bytes as ↔ Sequence Q bytes as := by
  rw [show P = Q from funext fun bytes => funext fun a => propext (h bytes a)]

theorem Sequence.map {P : Bytes → α → Prop} {Q : Bytes → β → Prop} {f : α → β} {bytes : Bytes}
    {as : List α} (sequence : Sequence P bytes as)
    (h : ∀ {bytes : Bytes} {a : α}, P bytes a → Q bytes (f a)) : Sequence Q bytes (as.map f) := by
  induction sequence with
  | nil => exact .nil
  | cons first others ih => exact .cons (h first) ih

theorem sequence_map_iff {P : Bytes → α → Prop} {f : α → β} {bytes : Bytes} {bs : List β} :
    Sequence (Mapped P f) bytes bs ↔ Mapped (Sequence P) (List.map f) bytes bs := by
  constructor
  · intro h
    induction h with
    | nil => exact ⟨[], .nil, rfl⟩
    | cons first others ih =>
      obtain ⟨a, hp, rfl⟩ := first
      obtain ⟨as, rest, rfl⟩ := ih
      exact ⟨a :: as, .cons hp rest, rfl⟩
  · rintro ⟨as, h, rfl⟩
    exact h.map fun hp => ⟨_, hp, rfl⟩

namespace Read

variable {x : Read α} {hx : x.Consumes} {c : Cursor}

theorem untilEnd_of_nil (h : c.unread = []) : x.untilEnd hx c = .finished := by
  unfold untilEnd
  simp [h]

theorem untilEnd_of_ok {a : α} (more : c.unread ≠ []) (h : (x.run c).result = .ok a) :
    x.untilEnd hx c = .turn a (x.run c).log (x.untilEnd hx (x.run c).rest) := by
  rw [untilEnd, if_neg (by simpa using more)]
  dsimp only
  split
  · next e failed =>
    rw [h] at failed
    cases failed
  · next b value =>
    rw [h] at value
    cases value
    rfl

theorem untilEnd_of_error {e : Error} (more : c.unread ≠ []) (h : (x.run c).result = .error e) :
    x.untilEnd hx c = .failed e (x.run c).log := by
  rw [untilEnd, if_neg (by simpa using more)]
  dsimp only
  split
  · next e' failed =>
    rw [h] at failed
    cases failed
    rfl
  · next b value =>
    rw [h] at value
    cases value

/-- A string that something is taken from is not empty. -/
theorem Consumes.ne_nil {bytes : Bytes} {a : α} (consumes : x.Consumes) (h : x.Takes bytes a) :
    bytes ≠ [] := by
  rintro rfl
  obtain ⟨value, rest⟩ := takes_iff.1 h 0 []
  have shorter := consumes ⟨0, []⟩ a value
  simp [Cursor.remaining] at shorter

variable (hx) in
/-- A loop starts with what stands in front of it. -/
theorem untilEnd_of_answersAt {offset : Nat} {bytes : Bytes} {a : α}
    (h : x.AnswersAt offset bytes (.ok a)) (after : Bytes) :
    ∃ log, x.untilEnd hx ⟨offset, bytes ++ after⟩ =
      .turn a log (x.untilEnd hx ⟨offset + bytes.length, after⟩) := by
  obtain ⟨value, rest⟩ := h after
  have more : bytes ++ after ≠ [] := by
    intro empty
    have shorter := hx _ a value
    rw [rest a rfl, empty] at shorter
    simp [Cursor.remaining] at shorter
  have turn : x.untilEnd hx _ = _ := untilEnd_of_ok more value
  rw [rest a rfl] at turn
  exact ⟨_, turn⟩

theorem untilEnd_of_answersAt_error {offset : Nat} {bytes : Bytes} {e : Error}
    (nonempty : bytes ≠ []) (h : x.AnswersAt offset bytes (.error e)) (after : Bytes) :
    ∃ log, x.untilEnd hx ⟨offset, bytes ++ after⟩ = .failed e log :=
  ⟨_, untilEnd_of_error (List.append_ne_nil_of_left_ne_nil nonempty after) (h after).1⟩

theorem result_values_untilEnd (more : c.unread ≠ []) :
    (x.untilEnd hx c).values.result = (do
      let a ← (x.run c).result
      (a :: ·) <$> (x.untilEnd hx (x.run c).rest).values.result) := by
  cases h : (x.run c).result with
  | error e =>
    rw [untilEnd_of_error more h]
    rfl
  | ok a =>
    rw [untilEnd_of_ok more h]
    rfl

section Language

variable {P : Bytes → α → Prop} {as : List α}

theorem sequence_of_values_untilEnd (recognizes : x.Recognizes P)
    (h : (x.untilEnd hx c).values.result = .ok as) : Sequence P c.unread as := by
  induction length : c.remaining using Nat.strongRecOn generalizing c as with
  | ind n ih =>
    by_cases more : c.unread = []
    · rw [untilEnd_of_nil more] at h
      cases h
      rw [more]
      exact .nil
    · rw [result_values_untilEnd more] at h
      obtain ⟨a, value, h⟩ := Result.bind_eq_ok_iff.1 h
      obtain ⟨rest, found, rfl⟩ := Result.map_eq_ok_iff.1 h
      obtain ⟨first, unread, hp⟩ := recognizes.taken value
      rw [unread]
      exact .cons hp (ih _ (length ▸ hx c a value) found rfl)

theorem values_untilEnd_of_sequence (recognizes : x.Recognizes P) {bytes : Bytes}
    (h : Sequence P bytes as) (offset : Nat) :
    (x.untilEnd hx ⟨offset, bytes⟩).values.result = .ok as := by
  induction h generalizing offset with
  | nil =>
    rw [untilEnd_of_nil rfl]
    rfl
  | @cons first rest a as hp others ih =>
    have taken := recognizes.takes hp
    obtain ⟨value, after⟩ := takes_iff.1 taken offset rest
    rw [result_values_untilEnd (List.append_ne_nil_of_left_ne_nil (hx.ne_nil taken) rest), value,
      Result.ok_bind, after, ih]
    rfl

/-- The loop as a whole takes sequences of what a turn takes. -/
theorem values_untilEnd_eq_ok_iff (recognizes : x.Recognizes P) :
    (x.untilEnd hx c).values.result = .ok as ↔ Sequence P c.unread as :=
  ⟨sequence_of_values_untilEnd recognizes,
    fun h => values_untilEnd_of_sequence recognizes h c.offset⟩

end Language

/-- A loop over pieces that are each answered gives the first error among the answers, or all the
values. -/
theorem values_untilEnd_flatMap (pieces : List β) (bytes : β → Bytes)
    (result : β → Except Error α)
    (answers : ∀ p ∈ pieces, bytes p ≠ [] ∧ x.Answers (bytes p) (result p)) (offset : Nat) :
    (x.untilEnd hx ⟨offset, pieces.flatMap bytes⟩).values.result = pieces.mapM result := by
  induction pieces generalizing offset with
  | nil =>
    rw [untilEnd_of_nil rfl]
    rfl
  | cons p pieces ih =>
    obtain ⟨nonempty, answer⟩ := answers p (by simp)
    obtain ⟨value, after⟩ := answer offset (pieces.flatMap bytes)
    have others := ih (fun q hq => answers q (by simp [hq])) (offset + (bytes p).length)
    rw [List.flatMap_cons, List.mapM_cons,
      result_values_untilEnd (List.append_ne_nil_of_left_ne_nil nonempty _), value]
    cases h : result p with
    | error e => rfl
    | ok a =>
      rw [Result.ok_bind, Result.ok_bind, after a h, others]
      cases pieces.mapM result <;> rfl

end Read

namespace Transcript

/-- Every value, up to where a read failed if one did. -/
def All (p : α → Prop) : Transcript α → Prop
  | finished => True
  | failed _ _ => True
  | turn a _ next => p a ∧ next.All p

theorem All.imp {p q : α → Prop} {t : Transcript α} (h : t.All p) (impl : ∀ a, p a → q a) :
    t.All q := by
  induction t with
  | finished => trivial
  | failed e log => trivial
  | turn a log next ih => exact ⟨impl a h.1, ih h.2⟩

theorem All.values {p : α → Prop} {t : Transcript α} (h : t.All p) {as : List α}
    (values : t.values.result = .ok as) : ∀ a ∈ as, p a := by
  induction t generalizing as with
  | finished =>
    cases values
    simp
  | failed e log => cases values
  | turn b log next ih =>
    obtain ⟨rest, found, rfl⟩ := Result.map_eq_ok_iff.1 values
    rintro a (_ | ⟨_, ha⟩)
    · exact h.1
    · exact ih h.2 found a ha

theorem all_untilEnd {x : Read α} {hx : x.Consumes} {p : α → Prop}
    (h : x.Yields p) (c : Cursor) : (x.untilEnd hx c).All p := by
  fun_induction Read.untilEnd x hx c with
  | case1 c empty => trivial
  | case2 c more reading e failed => trivial
  | case3 c more reading a value ih => exact ⟨h c a value, ih⟩

end Transcript

end Protowire
