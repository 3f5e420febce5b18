import Protowire.Proofs.Decoding.Unlimited
import Protowire.Proofs.Guarded.Refinement
import Protowire.Proofs.Message
import Protowire.Proofs.Read.Resync

set_option autoImplicit false

/-!
# Progress

Decoding ends because it moves. A turn of a loop takes at least a byte, and what stands behind a
length is read in a window that is shorter than the one around it. Only the bytes that remain are
counted, never the levels that may still nest.
-/

namespace Protowire

namespace Read

variable {α : Type} {c w : Cursor}

/-- The window behind a length. -/
def enclosed : Read Cursor := delimited pure

theorem toLogged_window (n : Nat) (inner : Cursor → Logged α) (c : Cursor) :
    ((window n inner).run c).toLogged = ((window n pure).run c).toLogged >>= inner := by
  by_cases fits : n ≤ c.remaining
  · simp only [window, if_pos fits, pure_bind]
  · simp only [window, if_neg fits]
    rfl

theorem toLogged_bind {β : Type} (x : Read α) (f : α → Read β) (c : Cursor) :
    ((x >>= f).run c).toLogged =
      (x.run c).toLogged >>= fun a => ((f a).run (x.run c).rest).toLogged := by
  cases value : (x.run c).result with
  | error e => rw [run_bind_of_error value, Logged.bind_of_error value]
  | ok a => rw [run_bind_of_ok value, Logged.bind_of_ok value]

theorem toLogged_delimited (inner : Cursor → Logged α) (c : Cursor) :
    ((delimited inner).run c).toLogged = (enclosed.run c).toLogged >>= inner := by
  rw [enclosed, delimited, delimited, toLogged_bind, toLogged_bind, bind_assoc]
  apply bind_congr
  intro n
  exact toLogged_window n.toNat inner _

theorem remaining_enclosed (found : (enclosed.run c).result = .ok w) :
    w.remaining < c.remaining := by
  cases length : (varint.run c).result with
  | error e =>
    rw [enclosed, delimited, run_bind_of_error length] at found
    cases found
  | ok n =>
    rw [enclosed, delimited, run_bind_of_ok length] at found
    have shorter := consumes_varint c n length
    by_cases fits : n.toNat ≤ (varint.run c).rest.remaining
    · simp only [window, if_pos fits] at found
      cases found
      rw [Cursor.remaining_take fits]
      exact Nat.lt_of_le_of_lt fits shorter
    · simp only [window, if_neg fits] at found
      cases found

end Read

namespace Decoding

/-- Every turn of a loop that does not fail takes something, and exactly one byte where it steps
over a malformed tag. Messages, map entries and packed lists are what is read in a window behind a
length, which is shorter than the window around it. With every turn and every such window held to
that, decoding never stops for want of progress, and its work is bounded by the bytes, of which
there are no more than a slice can have. There is one way of reading nested messages without a
limit, and a limit above the number of bytes makes no difference to it. -/
theorem progress (schema : Schema) (options : DecodeOptions) (access : Accessors) :
    (∀ nested table, (record schema options.malformedTags nested table).Consumes) ∧
    (∀ nested keyKind kind, (half options.malformedTags nested keyKind kind).Consumes) ∧
    (∀ t : ScalarType, t.read.Consumes) ∧
    (∀ c offset raw, (Tag.read.run c).result = .error (.malformedTag offset raw) →
      0 < c.remaining ∧ c.remaining ≤ (Tag.read.run c).rest.remaining + 10 ∧
      (∀ nested table, (record schema .resync nested table).StepsOver c) ∧
      ∀ nested keyKind kind, (half .resync nested keyKind kind).StepsOver c) ∧
    (∀ c w, (Read.enclosed.run c).result = .ok w → w.remaining < c.remaining) ∧
    (∀ c, let enclosed := (Read.enclosed.run c).toLogged
      (∀ levels type, ((message schema options access (levels + 1) type).run c).toLogged = do
        let w ← enclosed
        ((schema.fresh type).replay schema access (records schema options.malformedTags
          (message schema options access levels) (schema.table type) w)).toLogged) ∧
      (∀ nested keyKind kind,
        ((entry schema options.malformedTags nested keyKind kind).run c).toLogged = do
          let found ← (halves options.malformedTags nested keyKind kind (← enclosed)).values
          return (Half.lastKey (keyKind.default schema) found,
            Half.lastValue (kind.default schema) found)) ∧
      ∀ t, ((packed t).run c).toLogged = do
        (t.read.untilEnd t.consumes_read (← enclosed)).values) ∧
    (∀ table (m : Message) (bytes : Bytes), bytes.length < 2 ^ 64 →
      ∃ work ≤ 11 * bytes.length + 1, Guarded.merge schema options access table m bytes =
        .ok (m.merge schema options access table bytes, work)) ∧
    (∃! nested, Unlimited schema options.malformedTags access nested) ∧
    ∀ nested, Unlimited schema options.malformedTags access nested → ∀ levels type c,
      c.remaining < levels →
        (message schema options access levels type).run c = (nested type).run c := by
  refine ⟨consumes_record schema _, consumes_half _, ScalarType.consumes_read, ?malformed,
    fun c w => Read.remaining_enclosed, ?windows, ?work, ?unlimited, ?limits⟩
  case malformed =>
    intro c offset raw malformed
    have some := List.length_pos_of_ne_nil (Tag.unread_ne_nil_of_malformed malformed)
    have stepped := Tag.stepsOver_next malformed
    exact ⟨some, Tag.spent_read_le c, fun nested table => Read.stepsOver_bind stepped rfl,
      fun nested keyKind kind => Read.stepsOver_bind stepped rfl⟩
  case windows =>
    intro c
    exact ⟨fun levels type => Read.toLogged_delimited _ c,
      fun nested keyKind kind => Read.toLogged_delimited _ c,
      fun t => Read.toLogged_delimited _ c⟩
  case work => exact fun table m bytes => Guarded.merge_eq schema options access table m
  case unlimited =>
    exact ⟨_, unlimited_unlimited schema options access,
      fun nested h => h.unique (unlimited_unlimited schema options access)⟩
  case limits =>
    intro nested h levels type c short
    obtain rfl := h.unique (unlimited_unlimited schema options access)
    exact ((agrees_unlimited schema options access (Nat.le_refl levels) type).run_eq short).symm

/-- Ten bytes that are no tag, a message of two bytes, and both of them in one input. -/
theorem progress_sample :
    let options : DecodeOptions := ⟨.resync, 0⟩
    let overlong : Bytes := List.replicate 10 0xFF
    let child : Bytes := [0x02, 0x1A, 0x00]
    let bytes := overlong ++ 0x1A :: child
    let nested := unlimited Sample.schema options .full
    ((Tag.read.run (.ofBytes overlong)).result = .error (.malformedTag 0 0xFFFFFFFFFFFFFFFF) ∧
      (record Sample.schema .resync nested Sample.table).StepsOver (.ofBytes overlong)) ∧
    ((Read.enclosed.run (.ofBytes child)).result = .ok ⟨1, [0x1A, 0x00]⟩ ∧
      Cursor.remaining ⟨1, [0x1A, 0x00]⟩ < (Cursor.ofBytes child).remaining) ∧
    (bytes.length < 2 ^ 64 ∧ ∃ work ≤ 11 * bytes.length + 1,
      Guarded.merge Sample.schema options .full Sample.table Sample.leaf bytes =
        .ok (Sample.leaf.merge Sample.schema options .full Sample.table bytes, work)) ∧
    Unlimited Sample.schema .resync .full nested ∧
    (Cursor.ofBytes child).remaining < 4 ∧
    (message Sample.schema options .full 4 0).run (.ofBytes child) =
      (nested 0).run (.ofBytes child) := by
  intro options overlong child bytes nested
  obtain ⟨-, -, -, stepping, windows, -, work, -, limits⟩ := progress Sample.schema options .full
  have malformed : (Tag.read.run (.ofBytes overlong)).result =
      .error (.malformedTag 0 0xFFFFFFFFFFFFFFFF) := by rfl
  have found : (Read.enclosed.run (.ofBytes child)).result = .ok ⟨1, [0x1A, 0x00]⟩ := by rfl
  have given : Unlimited Sample.schema .resync .full nested :=
    unlimited_unlimited Sample.schema options .full
  have few : (Cursor.ofBytes child).remaining < 4 := by decide
  have short : bytes.length < 2 ^ 64 := by decide
  obtain ⟨-, -, record, -⟩ := stepping _ _ _ malformed
  exact ⟨⟨malformed, record nested Sample.table⟩, ⟨found, windows _ _ found⟩,
    ⟨short, work Sample.table Sample.leaf bytes short⟩, given, few,
    limits nested given 4 0 _ few⟩

end Decoding

end Protowire
