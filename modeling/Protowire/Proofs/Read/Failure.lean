import Protowire.Proofs.Read
import Protowire.Read.Scalar
import Protowire.Read.Tag
import Protowire.Transcript

set_option autoImplicit false

/-!
# What reads fail with

Which errors a read can give, wherever it starts and whatever bytes it finds.
-/

namespace Protowire

variable {α β : Type}

/-- What can be wrong with a payload. -/
inductive Error.OfPayload : Error → Prop
  | underrun (needed remaining : Nat) : OfPayload (.underrun needed remaining)
  | varint : OfPayload .varint
  | utf8 (fault : Utf8.Fault) : OfPayload (.utf8 fault)

namespace Read

/-- Every error that the read gives satisfies `p`. -/
def FailsWith (x : Read α) (p : Error → Prop) : Prop :=
  ∀ c e, (x.run c).result = .error e → p e

namespace FailsWith

variable {x : Read α} {p q : Error → Prop}

theorem imp (hx : x.FailsWith q) (h : ∀ e, q e → p e) : x.FailsWith p :=
  fun c e failed => h e (hx c e failed)

theorem pure (a : α) : (Pure.pure a : Read α).FailsWith p := by
  intro c e failed
  cases failed

theorem fail {e : Error} (h : p e) : (Read.fail e : Read α).FailsWith p := by
  intro c e' failed
  cases failed
  exact h

theorem emit (event : Event) : (Read.emit event).FailsWith p := by
  intro c e failed
  cases failed

theorem offset : Read.offset.FailsWith p := by
  intro c e failed
  cases failed

theorem ofExcept {result : Except Error α} (h : ∀ e, result = .error e → p e) :
    (Read.ofExcept result).FailsWith p :=
  fun _ e failed => h e failed

theorem bind {f : α → Read β} (hx : x.FailsWith p) (hf : ∀ a, (f a).FailsWith p) :
    (x >>= f).FailsWith p := by
  intro c e failed
  cases h : (x.run c).result with
  | error e' =>
    rw [run_bind_of_error h] at failed
    cases failed
    exact hx c e h
  | ok a =>
    rw [run_bind_of_ok h] at failed
    exact hf a _ e failed

theorem map (hx : x.FailsWith p) (f : α → β) : (f <$> x).FailsWith p := by
  rw [map_eq_pure_bind]
  exact hx.bind fun a => .pure (f a)

theorem mapError {f : Error → Error} (hx : x.FailsWith q)
    (h : ∀ e, q e → p (f e)) : (x.mapError f).FailsWith p := by
  intro c e failed
  change (x.run c).result.mapError f = .error e at failed
  cases hr : (x.run c).result with
  | ok a =>
    rw [hr] at failed
    cases failed
  | error e' =>
    rw [hr] at failed
    cases failed
    exact h e' (hx c e' hr)

theorem recover {handler : Error → Option (Read α)} (hx : x.FailsWith q)
    (unhandled : ∀ e, q e → handler e = none → p e)
    (h : ∀ e y, handler e = some y → y.FailsWith p) : (x.recover handler).FailsWith p := by
  intro c e failed
  simp only [Read.recover] at failed
  cases hr : (x.run c).result with
  | ok a =>
    simp only [hr] at failed
    cases failed
  | error e' =>
    cases hy : handler e' with
    | none =>
      simp only [hr, hy] at failed
      cases failed
      exact unhandled e (hx c e hr) hy
    | some y =>
      simp only [hr, hy] at failed
      exact h e' y hy c e failed

theorem window {n : Nat} {inner : Cursor → Logged α} (payload : ∀ e, e.OfPayload → p e)
    (h : ∀ c e, (inner c).result = .error e → p e) : (Read.window n inner).FailsWith p := by
  intro c e failed
  by_cases hn : n ≤ c.remaining
  · simp only [Read.window, if_pos hn] at failed
    exact h _ e failed
  · simp only [Read.window, if_neg hn] at failed
    cases failed
    exact payload _ (.underrun _ _)

end FailsWith

theorem failsWith_byte : byte.FailsWith Error.OfPayload := by
  intro c e failed
  cases hc : c.unread with
  | nil =>
    simp only [byte, hc] at failed
    cases failed
    exact .underrun 1 0
  | cons b rest =>
    simp only [byte, hc] at failed
    cases failed

theorem failsWith_groups (n : Nat) : (groups n).FailsWith Error.OfPayload := by
  induction n with
  | zero => exact .fail .varint
  | succ n ih =>
    apply failsWith_byte.bind
    intro b
    split
    · exact .pure _
    · exact ih.bind fun high => .pure _

theorem failsWith_varint : varint.FailsWith Error.OfPayload := failsWith_groups 10

theorem failsWith_take (n : Nat) : (take n).FailsWith Error.OfPayload := by
  apply FailsWith.window fun e h => h
  intro c e failed
  cases failed

theorem FailsWith.delimited {p : Error → Prop} {inner : Cursor → Logged α}
    (payload : ∀ e, e.OfPayload → p e) (h : ∀ c e, (inner c).result = .error e → p e) :
    (Read.delimited inner).FailsWith p :=
  (failsWith_varint.imp payload).bind fun _ => .window payload h

theorem failsWith_bytes : bytes.FailsWith Error.OfPayload := by
  apply FailsWith.delimited fun e h => h
  intro c e failed
  cases failed

theorem failsWith_string : string.FailsWith Error.OfPayload := by
  apply failsWith_bytes.bind
  intro content
  apply FailsWith.ofExcept
  intro e failed
  cases h : Utf8.decode content with
  | ok text =>
    rw [h] at failed
    cases failed
  | error fault =>
    rw [h] at failed
    cases failed
    exact .utf8 fault

end Read

theorem ScalarType.failsWith_read (t : ScalarType) : t.read.FailsWith Error.OfPayload := by
  have varint := Read.failsWith_varint
  have fixed32 : Read.fixed32.FailsWith Error.OfPayload :=
    (Read.failsWith_take 4).bind fun _ => .pure _
  have fixed64 : Read.fixed64.FailsWith Error.OfPayload :=
    (Read.failsWith_take 8).bind fun _ => .pure _
  cases t
  case string => exact Read.failsWith_string.bind fun _ => .pure _
  case bytes => exact Read.failsWith_bytes.bind fun _ => .pure _
  case fixed32 | sfixed32 | float => exact fixed32.bind fun _ => .pure _
  case fixed64 | sfixed64 | double => exact fixed64.bind fun _ => .pure _
  all_goals exact varint.bind fun _ => .pure _

theorem WireType.failsWith_skip (w : WireType) : w.skip.FailsWith Error.OfPayload := by
  refine Read.FailsWith.offset.bind fun start => ?_
  have count : (do return (← Read.offset) - start : Read Nat).FailsWith Error.OfPayload :=
    Read.FailsWith.offset.bind fun _ => .pure _
  cases w with
  | varint => exact (Read.failsWith_varint.map _).bind fun _ => count
  | fixed64 => exact ((Read.failsWith_take 8).map _).bind fun _ => count
  | delimited => exact (Read.failsWith_bytes.map _).bind fun _ => count
  | fixed32 => exact ((Read.failsWith_take 4).map _).bind fun _ => count

namespace Tag

variable {p : Error → Prop}

theorem failsWith_read (payload : ∀ e, e.OfPayload → p e)
    (malformed : ∀ offset raw, p (.malformedTag offset raw)) : read.FailsWith p := by
  refine Read.FailsWith.offset.bind fun start => ?_
  refine Read.FailsWith.bind (Read.failsWith_varint.mapError ?_) fun raw => .ofExcept ?_
  · intro e h
    cases h with
    | varint => exact malformed _ _
    | underrun needed remaining => exact payload _ (.underrun needed remaining)
    | utf8 fault => exact payload _ (.utf8 fault)
  · intro e failed
    unfold ofRaw at failed
    split at failed
    · cases failed
    · cases failed
      exact malformed _ _

/-- Malformed tags are what the policy decides about. Where they are stepped over, none is left. -/
theorem failsWith_next {policy : MalformedTagPolicy} (payload : ∀ e, e.OfPayload → p e)
    (malformed : policy = .reject → ∀ offset raw, p (.malformedTag offset raw)) :
    (next policy).FailsWith p := by
  have tags : read.FailsWith fun e => e.OfPayload ∨ ∃ offset raw, e = .malformedTag offset raw :=
    failsWith_read (fun e h => .inl h) fun offset raw => .inr ⟨offset, raw, rfl⟩
  refine (tags.map some).recover ?_ ?_
  · intro e found unhandled
    rcases found with bytes | ⟨offset, raw, rfl⟩
    · exact payload e bytes
    · cases policy with
      | reject => exact malformed rfl offset raw
      | resync => cases unhandled
  · intro e y handled
    split at handled
    · cases policy with
      | reject => cases handled
      | resync =>
        cases handled
        refine (Read.failsWith_byte.imp payload).bind fun _ => ?_
        exact (Read.FailsWith.emit _).bind fun _ => .pure _
    · cases handled

end Tag

namespace Transcript

variable {x : Read α} {hx : x.Consumes} {p : Error → Prop} {c : Cursor} {e : Error}

/-- A loop fails with what a turn of it fails with. -/
theorem failsWith_values (h : x.FailsWith p) (failed : (x.untilEnd hx c).values.result = .error e) :
    p e := by
  fun_induction Read.untilEnd x hx c with
  | case1 c empty => cases failed
  | case2 c more reading e' turn =>
    cases failed
    exact h c e turn
  | case3 c more reading a value ih => exact ih (Result.map_eq_error_iff.1 failed)

end Transcript

end Protowire
