import Protowire.Proofs.Result
import Protowire.Reader.Program

set_option autoImplicit false

/-!
# Underruns

What a read says when it runs out of bytes: how many are left in the window where it stopped, and
how many it needed there, which is more.
-/

namespace Protowire

variable {α β : Type}

namespace Read

/-- An underrun has what is left where the read stopped, and that is less than was needed. -/
def Measures (x : Read α) : Prop :=
  ∀ c needed remaining, (x.run c).result = .error (.underrun needed remaining) →
    (x.run c).rest.remaining = remaining ∧ remaining < needed

namespace Measures

variable {x : Read α}

theorem pure (a : α) : (Pure.pure a : Read α).Measures := by
  intro c needed remaining failed
  cases failed

theorem offset : Read.offset.Measures := by
  intro c needed remaining failed
  cases failed

theorem fail {e : Error} (h : ∀ needed remaining, e ≠ .underrun needed remaining) :
    (Read.fail e : Read α).Measures := by
  intro c needed remaining failed
  cases failed
  exact absurd rfl (h _ _)

theorem ofExcept {result : Except Error α}
    (h : ∀ needed remaining, result ≠ .error (.underrun needed remaining)) :
    (Read.ofExcept result).Measures :=
  fun _ needed remaining failed => absurd failed (h needed remaining)

theorem bind {f : α → Read β} (hx : x.Measures) (hf : ∀ a, (f a).Measures) :
    (x >>= f).Measures := by
  intro c needed remaining failed
  cases h : (x.run c).result with
  | error e =>
    rw [run_bind_of_error h] at failed ⊢
    cases failed
    exact hx c needed remaining h
  | ok a =>
    rw [run_bind_of_ok h] at failed ⊢
    exact hf a _ needed remaining failed

theorem map (hx : x.Measures) (f : α → β) : (f <$> x).Measures := by
  rw [map_eq_pure_bind]
  exact hx.bind fun a => .pure (f a)

/-- A change of errors that makes no underruns of its own. -/
theorem mapError {f : Error → Error} (hx : x.Measures)
    (h : ∀ e needed remaining, f e = .underrun needed remaining → e = .underrun needed remaining) :
    (x.mapError f).Measures := by
  intro c needed remaining failed
  obtain ⟨e, failed, same⟩ := Result.mapError_eq_error_iff.1 failed
  rw [h e needed remaining same] at failed
  exact hx c needed remaining failed

theorem window {n : Nat} {inner : Cursor → Logged α}
    (h : ∀ c needed remaining, (inner c).result ≠ .error (.underrun needed remaining)) :
    (Read.window n inner).Measures := by
  intro c needed remaining failed
  by_cases fits : n ≤ c.remaining
  · simp only [Read.window, if_pos fits] at failed
    exact absurd failed (h _ needed remaining)
  · simp only [Read.window, if_neg fits] at failed ⊢
    cases failed
    exact ⟨rfl, Nat.lt_of_not_le fits⟩

end Measures

theorem measures_byte : byte.Measures := by
  intro c needed remaining failed
  cases unread : c.unread with
  | nil =>
    simp only [byte, unread] at failed ⊢
    cases failed
    exact ⟨by rw [Cursor.remaining, unread]; rfl, Nat.one_pos⟩
  | cons b rest =>
    simp only [byte, unread] at failed
    cases failed

theorem measures_groups (n : Nat) : (groups n).Measures := by
  induction n with
  | zero => exact .fail fun _ _ => Error.noConfusion
  | succ n ih =>
    apply measures_byte.bind
    intro b
    split
    · exact .pure _
    · exact ih.bind fun high => .pure _

theorem measures_varint : varint.Measures := measures_groups 10

theorem measures_take (n : Nat) : (take n).Measures := by
  apply Measures.window
  intro c needed remaining failed
  cases failed

theorem measures_bytes : bytes.Measures := measures_varint.bind fun n => measures_take n.toNat

theorem measures_string : string.Measures := by
  apply measures_bytes.bind
  intro content
  apply Measures.ofExcept
  intro needed remaining failed
  obtain ⟨fault, -, other⟩ := Result.mapError_eq_error_iff.1 failed
  cases other

end Read

theorem ScalarType.measures_read (t : ScalarType) : t.read.Measures := by
  have varint := Read.measures_varint
  have fixed32 : Read.fixed32.Measures := (Read.measures_take 4).bind fun _ => .pure _
  have fixed64 : Read.fixed64.Measures := (Read.measures_take 8).bind fun _ => .pure _
  cases t
  case string => exact Read.measures_string.bind fun _ => .pure _
  case bytes => exact Read.measures_bytes.bind fun _ => .pure _
  case fixed32 | sfixed32 | float => exact fixed32.bind fun _ => .pure _
  case fixed64 | sfixed64 | double => exact fixed64.bind fun _ => .pure _
  all_goals exact varint.bind fun _ => .pure _

theorem WireType.measures_skip (w : WireType) : w.skip.Measures := by
  refine Read.Measures.offset.bind fun start => ?_
  have count : (do return (← Read.offset) - start : Read Nat).Measures :=
    Read.Measures.offset.bind fun _ => .pure _
  cases w with
  | varint => exact (Read.measures_varint.map _).bind fun _ => count
  | fixed64 => exact ((Read.measures_take 8).map _).bind fun _ => count
  | delimited => exact (Read.measures_bytes.map _).bind fun _ => count
  | fixed32 => exact ((Read.measures_take 4).map _).bind fun _ => count

theorem Tag.measures_read : Tag.read.Measures := by
  refine Read.Measures.offset.bind fun start => ?_
  refine Read.Measures.bind (Read.measures_varint.mapError ?_) fun raw => .ofExcept ?_
  · intro e needed remaining same
    split at same
    · cases same
    · exact same
  · intro needed remaining failed
    unfold ofRaw at failed
    split at failed
    · cases failed
    · cases failed

theorem Primitive.measures_read (p : Primitive) : p.read.Measures := by
  cases p with
  | byte => exact Read.measures_byte.bind fun _ => .pure _
  | varint | varint32 => exact Read.measures_varint.bind fun _ => .pure _
  | scalar t => exact t.measures_read

end Protowire
