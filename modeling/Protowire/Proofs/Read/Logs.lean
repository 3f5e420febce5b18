import Protowire.Proofs.Transcript
import Protowire.Read.Scalar
import Protowire.Read.Tag

set_option autoImplicit false

/-!
# What reads log

Which events a read can log, whatever it is run on. Reads of scalars and tags log nothing at all.
-/

namespace Protowire

variable {α β : Type} {p : Event → Prop}

namespace Read

variable {x : Read α} {c : Cursor}

/-- Wherever the read is run, and however that ends, all it logs are such events. -/
def Logs (p : Event → Prop) (x : Read α) : Prop := ∀ c, ∀ e ∈ (x.run c).log, p e

namespace Logs

theorem pure (a : α) : (Pure.pure a : Read α).Logs p := fun _ _ he => absurd he List.not_mem_nil

theorem fail (e : Error) : (Read.fail e : Read α).Logs p :=
  fun _ _ he => absurd he List.not_mem_nil

theorem offset : Read.offset.Logs p := fun _ _ he => absurd he List.not_mem_nil

theorem ofExcept (result : Except Error α) : (Read.ofExcept result).Logs p :=
  fun _ _ he => absurd he List.not_mem_nil

theorem emit {e : Event} (h : p e) : (Read.emit e).Logs p :=
  fun _ _ he => List.mem_singleton.1 he ▸ h

theorem bind {f : α → Read β} (hx : x.Logs p) (hf : ∀ a, (f a).Logs p) : (x >>= f).Logs p := by
  intro c e he
  cases h : (x.run c).result with
  | error err =>
    rw [run_bind_of_error h] at he
    exact hx c e he
  | ok a =>
    rw [run_bind_of_ok h] at he
    rcases List.mem_append.1 he with first | later
    · exact hx c e first
    · exact hf a _ e later

theorem bind_pure (hx : x.Logs p) (f : α → β) : (x >>= fun a => Pure.pure (f a)).Logs p :=
  hx.bind fun a => pure (f a)

theorem mapError (hx : x.Logs p) (f : Error → Error) : (x.mapError f).Logs p := hx

theorem recover {handler : Error → Option (Read α)} (hx : x.Logs p)
    (handled : ∀ e y, handler e = some y → y.Logs p) : (x.recover handler).Logs p := by
  intro c e he
  unfold Read.recover at he
  dsimp only at he
  split at he
  · exact hx c e he
  · split at he
    · exact hx c e he
    · next y found =>
      rcases List.mem_append.1 he with first | second
      · exact hx c e first
      · exact handled _ y found c e second

theorem window {inner : Cursor → Logged α} (h : ∀ w, ∀ e ∈ (inner w).log, p e) (n : Nat) :
    (Read.window n inner).Logs p := by
  intro c e he
  unfold Read.window at he
  dsimp only at he
  split at he
  · exact h _ e he
  · exact absurd he List.not_mem_nil

theorem byte : Read.byte.Logs p := by
  intro c e he
  unfold Read.byte at he
  dsimp only at he
  split at he <;> exact absurd he List.not_mem_nil

theorem groups (n : Nat) : (Read.groups n).Logs p := by
  induction n with
  | zero => exact fail _
  | succ n ih =>
    refine byte.bind fun b => ?_
    split
    · exact pure _
    · exact ih.bind_pure _

theorem varint : Read.varint.Logs p := groups 10

theorem delimited {inner : Cursor → Logged α} (h : ∀ w, ∀ e ∈ (inner w).log, p e) :
    (Read.delimited inner).Logs p :=
  varint.bind fun n => window h n.toNat

theorem unread (n : Nat) : (Read.window n fun w => .pure w.unread).Logs p :=
  window (fun _ _ he => absurd he List.not_mem_nil) n

theorem bytes : Read.bytes.Logs p := varint.bind fun n => unread n.toNat

theorem values_untilEnd (hx : x.Logs p) (consumes : x.Consumes) (c : Cursor) :
    ∀ e ∈ (x.untilEnd consumes c).values.log, p e := by
  fun_induction Read.untilEnd x consumes c with
  | case1 c empty => exact fun _ he => absurd he List.not_mem_nil
  | case2 c more reading e failed => exact hx c
  | case3 c more reading a value ih => exact List.forall_mem_append.2 ⟨hx c, ih⟩

end Logs

abbrev Silent (x : Read α) : Prop := x.Logs fun _ => False

theorem Silent.log_eq (hx : x.Silent) (c : Cursor) : (x.run c).log = [] :=
  List.eq_nil_iff_forall_not_mem.2 (hx c)

theorem Silent.run_eq (hx : x.Silent) {a : α} (h : (x.run c).result = .ok a) :
    x.run c = ⟨⟨.ok a, []⟩, (x.run c).rest⟩ :=
  Reading.ext h (hx.log_eq c) rfl

end Read

open Read

theorem ScalarType.logs_read (t : ScalarType) : t.read.Logs p := by
  have varint : Read.varint.Logs p := Logs.varint
  have fixed32 : Read.fixed32.Logs p := (Logs.unread 4).bind_pure _
  have fixed64 : Read.fixed64.Logs p := (Logs.unread 8).bind_pure _
  have bytes : Read.bytes.Logs p := Logs.bytes
  cases t
  case string => exact (bytes.bind fun _ => .ofExcept _).bind_pure _
  case bytes => exact bytes.bind_pure _
  case fixed32 | sfixed32 | float => exact fixed32.bind_pure _
  case fixed64 | sfixed64 | double => exact fixed64.bind_pure _
  all_goals exact varint.bind_pure _

theorem WireType.logs_skip (w : WireType) : w.skip.Logs p := by
  have counted {γ : Type} {x : Read γ} (hx : x.Logs p) : (do
      let start ← Read.offset
      discard x
      return (← Read.offset) - start : Read Nat).Logs p := by
    refine Logs.offset.bind fun start => (hx.bind_pure fun _ => ()).bind fun _ => ?_
    exact Logs.offset.bind_pure _
  cases w with
  | varint => exact counted Logs.varint
  | fixed64 => exact counted (Logs.unread 8)
  | delimited => exact counted Logs.bytes
  | fixed32 => exact counted (Logs.unread 4)

theorem Tag.logs_read : Tag.read.Logs p :=
  Logs.offset.bind fun _ => (Logs.mapError Logs.varint _).bind fun _ => .ofExcept _

/-- Nothing but malformed tags is logged on the way to a tag. -/
theorem Tag.logs_next (policy : MalformedTagPolicy)
    (h : ∀ raw offset, p (.malformedTag raw offset)) : (Tag.next policy).Logs p := by
  refine Logs.recover (logs_read.bind_pure some) fun e y handled => ?_
  split at handled
  · cases policy with
    | reject => cases handled
    | resync =>
      cases handled
      exact Logs.byte.bind fun _ => (Logs.emit (h _ _)).bind fun _ => .pure none
  · cases handled

end Protowire
