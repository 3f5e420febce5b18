import Protowire.Proofs.Read
import Protowire.Proofs.Transcript

set_option autoImplicit false

/-!
# Reads that agree up to an error

Two reads may be the same but for what they do about one kind of error. Up to the first such error
they go through the bytes side by side, so what is put together from them differs in no other way.
How long a window may be is counted along, since a read may be known on short windows only.
-/

namespace Protowire

variable {α β : Type} {p : Error → Prop} {size : Nat}

/-- `y` is `x`, unless that fails with an error in `p`. -/
def Logged.Agrees (p : Error → Prop) (x y : Logged α) : Prop :=
  (∃ e, x.result = .error e ∧ p e) ∨ y = x

theorem Logged.Agrees.bind {x y : Logged α} (h : x.Agrees p y) (f : α → Logged β) :
    (x >>= f).Agrees p (y >>= f) := by
  rcases h with ⟨e, failed, he⟩ | rfl
  · left
    refine ⟨e, ?_, he⟩
    rw [bind_of_error failed]
  · exact .inr rfl

namespace Read

/-- On windows of fewer than `size` bytes `y` does what `x` does, except where that fails with an
error in `p`. -/
def Agrees (size : Nat) (p : Error → Prop) (x y : Read α) : Prop :=
  ∀ c, c.remaining < size → (∃ e, (x.run c).result = .error e ∧ p e) ∨ y.run c = x.run c

namespace Agrees

variable {x y : Read α}

theorem refl (x : Read α) : Agrees size p x x :=
  fun _ _ => .inr rfl

theorem fail {e : Error} (h : p e) (y : Read α) : Agrees size p (Read.fail e) y :=
  fun _ _ => .inl ⟨e, rfl, h⟩

/-- Where no error is in `p`, agreement is equality. -/
theorem run_eq (h : Agrees size (fun _ => False) x y) {c : Cursor} (short : c.remaining < size) :
    y.run c = x.run c := by
  rcases h c short with ⟨e, -, none⟩ | same
  · exact none.elim
  · exact same

/-- There is no window shorter than empty. -/
theorem zero (x y : Read α) : Agrees 0 p x y :=
  fun _ short => absurd short (Nat.not_lt_zero _)

theorem mono {larger : Nat} (h : Agrees larger p x y) (le : size ≤ larger) :
    Agrees size p x y :=
  fun c short => h c (Nat.lt_of_lt_of_le short le)

theorem bind {f g : α → Read β} (h : Agrees size p x y) (hf : ∀ a, Agrees size p (f a) (g a)) :
    Agrees size p (x >>= f) (y >>= g) := by
  intro c short
  rcases h c short with ⟨e, failed, he⟩ | same
  · left
    refine ⟨e, ?_, he⟩
    rw [run_bind_of_error failed]
  · cases hr : (x.run c).result with
    | error e =>
      right
      rw [run_bind_of_error hr, run_bind_of_error (by rw [same]; exact hr), same]
    | ok a =>
      have value : (y.run c).result = .ok a := by rw [same]; exact hr
      rw [run_bind_of_ok hr, run_bind_of_ok value, same]
      have inside := Nat.lt_of_le_of_lt (x.forward c).remaining_le short
      rcases hf a (x.run c).rest inside with ⟨e, failed, he⟩ | others
      · exact .inl ⟨e, failed, he⟩
      · right
        rw [others]

/-- Behind something that was read the window is shorter. -/
theorem bind_of_consumes (hx : x.Consumes) {f g : α → Read β}
    (hf : ∀ a, Agrees size p (f a) (g a)) : Agrees (size + 1) p (x >>= f) (x >>= g) := by
  intro c short
  cases hr : (x.run c).result with
  | error e =>
    right
    rw [run_bind_of_error hr, run_bind_of_error hr]
  | ok a =>
    rw [run_bind_of_ok hr, run_bind_of_ok hr]
    have inside := Nat.lt_of_lt_of_le (hx c a hr) (Nat.le_of_lt_succ short)
    rcases hf a (x.run c).rest inside with ⟨e, failed, he⟩ | others
    · exact .inl ⟨e, failed, he⟩
    · right
      rw [others]

theorem window {n : Nat} {inner inner' : Cursor → Logged α}
    (h : ∀ w : Cursor, w.remaining < size → (inner w).Agrees p (inner' w)) :
    Agrees size p (Read.window n inner) (Read.window n inner') := by
  intro c short
  by_cases hn : n ≤ c.remaining
  · simp only [Read.window, if_pos hn]
    have inside : (c.take n).remaining < size := by
      rw [Cursor.remaining_take hn]
      exact Nat.lt_of_le_of_lt hn short
    rcases h (c.take n) inside with ⟨e, failed, he⟩ | same
    · exact .inl ⟨e, failed, he⟩
    · right
      rw [same]
  · right
    simp only [Read.window, if_neg hn]

/-- What runs behind a length runs in a window that is shorter than the one around it. -/
theorem delimited {inner inner' : Cursor → Logged α}
    (h : ∀ w : Cursor, w.remaining < size → (inner w).Agrees p (inner' w)) :
    Agrees (size + 1) p (Read.delimited inner) (Read.delimited inner') :=
  bind_of_consumes consumes_varint fun _ => window h

end Agrees

end Read

namespace Transcript

/-- The second transcript is the first one up to an error in `p`, if there is one. -/
inductive Forks (p : Error → Prop) : Transcript α → Transcript α → Prop
  | same (t : Transcript α) : Forks p t t
  | apart {e : Error} {log : List Event} {t : Transcript α} : p e → Forks p (failed e log) t
  | turn {a : α} {log : List Event} {t t' : Transcript α} :
      Forks p t t' → Forks p (turn a log t) (turn a log t')

theorem Forks.values {t t' : Transcript α} (h : Forks p t t') : t.values.Agrees p t'.values := by
  induction h with
  | same t => exact .inr rfl
  | apart he => exact .inl ⟨_, rfl, he⟩
  | turn _ ih =>
    rcases ih with ⟨e, failed, he⟩ | same
    · left
      refine ⟨e, ?_, he⟩
      rw [Transcript.values, failed]
      rfl
    · right
      rw [Transcript.values, Transcript.values, same]

/-- A transcript that reaches the end has not met an error. -/
theorem Forks.eq_of_ok {t t' : Transcript α} (h : Forks p t t') {as : List α}
    (done : t.values.result = .ok as) : t' = t := by
  induction h generalizing as with
  | same t => rfl
  | apart _ => cases done
  | turn _ ih =>
    obtain ⟨others, rest, -⟩ := Result.map_eq_ok_iff.1 done
    rw [ih rest]

end Transcript

theorem Read.Agrees.untilEnd {x y : Read α} (hx : x.Consumes) (hy : y.Consumes)
    (h : Agrees size p x y) {c : Cursor} (short : c.remaining < size) :
    (x.untilEnd hx c).Forks p (y.untilEnd hy c) := by
  induction length : c.remaining using Nat.strongRecOn generalizing c with
  | ind n ih =>
    by_cases empty : c.unread = []
    · rw [untilEnd_of_nil empty, untilEnd_of_nil empty]
      exact .same _
    · rcases h c short with ⟨e, failed, he⟩ | same
      · rw [untilEnd_of_error empty failed]
        exact .apart he
      · cases hr : (x.run c).result with
        | error e =>
          have failed : (y.run c).result = .error e := by rw [same]; exact hr
          rw [untilEnd_of_error empty hr, untilEnd_of_error empty failed, same]
          exact .same _
        | ok a =>
          have value : (y.run c).result = .ok a := by rw [same]; exact hr
          rw [untilEnd_of_ok empty hr, untilEnd_of_ok empty value, same]
          have further := hx c a hr
          exact .turn (ih _ (length ▸ further) (Nat.lt_trans further short) rfl)

end Protowire
