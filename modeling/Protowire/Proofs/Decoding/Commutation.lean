import Protowire.Proofs.Decoding.Concatenation
import Protowire.Proofs.Decoding.Values
import Protowire.Proofs.Message.Commutation

set_option autoImplicit false

/-!
# Fields in any order

A record acts at the slot of its field and does not look at the message. So two inputs without a
field in common can be decoded one behind the other in either order.
-/

namespace Protowire

/-- What was read in each turn, up to where reading ended. -/
def Transcript.turns {α : Type} : Transcript α → List α
  | finished => []
  | failed _ _ => []
  | turn a _ next => a :: next.turns

theorem Transcript.All.of_mem_turns {α : Type} {p : α → Prop} {t : Transcript α} (h : t.All p) :
    ∀ a ∈ t.turns, p a := by
  induction t with
  | finished => simp [turns]
  | failed e log => simp [turns]
  | turn b log next ih =>
    intro a ha
    rcases List.mem_cons.1 ha with rfl | later
    · exact h.1
    · exact ih h.2 a later

/-- The number of the field that the update is made to. -/
def Update.number? (table : FieldTable) (u : Update) : Option FieldNumber :=
  table.slots[u.slot]?.map FieldSlot.number

namespace Decoding

variable {schema : Schema} {policy : MalformedTagPolicy} {nested : Nat → Read Message}
  {table : FieldTable}

theorem slot_of_brings {P : Kind → Value → Prop} {field : FieldSlot} {form : Form} {u : Update}
    (brings : u.Brings schema P field form) : u.slot = field.index := by
  cases brings <;> rfl

/-- The number is that of the tag that the record begins with. -/
theorem number_of_record (built : table.Built) {c : Cursor} {u : Update}
    (made : ((record schema policy nested table).run c).result = .ok (some u)) :
    ∃ tag, ((Tag.next policy).run c).result = .ok (some tag) ∧
      u.number? table = some tag.number := by
  unfold record at made
  cases next : ((Tag.next policy).run c).result with
  | error e =>
    rw [Read.run_bind_of_error next] at made
    cases made
  | ok o =>
    rw [Read.run_bind_of_ok next] at made
    cases o with
    | none => cases made
    | some tag =>
      refine ⟨tag, rfl, ?_⟩
      refine (?_ : Read.Yields _ fun o => ∀ u, o = some u → u.number? table = some tag.number)
        _ _ made u rfl
      simp only
      split
      · next field found =>
        obtain ⟨declared, number⟩ := built.consistent.slotByNumber?_eq_some_iff.1 found
        have place := built.consistent.getElem?_index declared
        have reads : ∀ k : Kind, (k.read nested).Yields fun _ => True := fun _ _ _ _ => trivial
        refine .after fun _ => ?_
        split
        · next form _ =>
          refine (yields_update reads field form).bind fun u' brings => .pure fun u'' same => ?_
          cases same
          rw [Update.number?, slot_of_brings brings, place, ← number]
          rfl
        · exact .after fun _ => .after fun _ => .pure fun u' h => by cases h
      · exact .after fun _ => .after fun _ => .pure fun u' h => by cases h

/-- The numbers of the known fields that the records of an input bring something for. -/
def knownNumbers (schema : Schema) (options : DecodeOptions) (access : Accessors)
    (table : FieldTable) (bytes : Bytes) : List FieldNumber :=
  (transcript schema options access table bytes).turns.filterMap fun o =>
    o.bind fun u => u.number? table

theorem exists_number_of_mem_turns {options : DecodeOptions} {access : Accessors} {bytes : Bytes}
    (built : table.Built) {u : Update}
    (h : some u ∈ (transcript schema options access table bytes).turns) :
    ∃ n ∈ knownNumbers schema options access table bytes, u.number? table = some n := by
  have numbered : (record schema options.malformedTags
      (message schema options access options.recursionLimit.toNat) table).Yields fun o =>
        ∀ u, o = some u → ∃ n, u.number? table = some n := by
    rintro c o made u rfl
    obtain ⟨tag, -, number⟩ := number_of_record built made
    exact ⟨tag.number, number⟩
  have all : (transcript schema options access table bytes).All _ :=
    Transcript.all_untilEnd numbered (.ofBytes bytes)
  obtain ⟨n, number⟩ := all.of_mem_turns _ h u rfl
  exact ⟨n, List.mem_filterMap.2 ⟨some u, h, number⟩, number⟩

theorem apart_of_disjoint {options : DecodeOptions} {access : Accessors} {a b : Bytes}
    (built : table.Built)
    (disjoint : (knownNumbers schema options access table a).Disjoint
      (knownNumbers schema options access table b)) :
    Message.Apart (transcript schema options access table a).turns
      (transcript schema options access table b).turns := by
  intro u u' hu hu' same
  obtain ⟨n, known, number⟩ := exists_number_of_mem_turns built hu
  obtain ⟨n', known', number'⟩ := exists_number_of_mem_turns built hu'
  rw [Update.number?, same] at number
  obtain rfl : n = n' := Option.some.inj (number.symm.trans number')
  exact disjoint known known'

end Decoding

namespace Message

variable {schema : Schema} {options : DecodeOptions} {access : Accessors} {table : FieldTable}
  {m m' : Message} {t : Transcript (Option Update)}

/-- What is replayed without an error into one message is so into any other of its type. -/
theorem replay_of_done (same : m'.type = m.type)
    (done : (m.replay schema access t).result = .ok ()) :
    (m'.replay schema access t).result = .ok () ∧
      (m'.replay schema access t).message = t.turns.foldl apply m' := by
  -- both messages change with every update, and only their types stay the same
  induction t generalizing m m' with
  | finished => exact ⟨rfl, rfl⟩
  | failed e log => cases done
  | turn o log next ih =>
    cases o with
    | none => exact ih same done
    | some u =>
      cases result : (m.update schema access u).result with
      | error e =>
        rw [replay_turn_of_error result, result] at done
        cases done
      | ok _ =>
        rw [replay_turn_of_ok result, Decoded.result_after] at done
        have made : m'.update schema access u = _ := update_of_made same result
        have made₀ : m.update schema access u = _ := update_of_made rfl result
        rw [made₀] at done
        have made' : (m'.update schema access u).result = .ok () := by rw [made]
        rw [replay_turn_of_ok made', made]
        exact ih (by rw [type_apply, type_apply, same]) done

/-- One behind the other, two inputs make the updates of both. -/
theorem merge_append_of_done {a b : Bytes}
    (first : (m.merge schema options access table a).result = .ok ())
    (second : (m.merge schema options access table b).result = .ok ()) :
    let whole := m.merge schema options access table (a ++ b)
    whole.result = .ok () ∧
      whole.message = (Decoding.transcript schema options access table b).turns.foldl apply
        ((Decoding.transcript schema options access table a).turns.foldl apply m) := by
  intro whole
  obtain ⟨message, result, -⟩ := merge_append schema options access table m a b first
  have front : (m.merge schema options access table a).message = _ :=
    (replay_of_done rfl first).2
  rw [front] at message result
  obtain ⟨made, left⟩ := replay_of_done (type_foldl_apply m _) second
  exact ⟨result.trans (congrArg _ made), message.trans left⟩

/-- Two inputs that can each be decoded into the message, and bring nothing for the same field,
can be decoded one behind the other in either order. Records that are stepped over do not count. -/
theorem merge_comm (schema : Schema) (options : DecodeOptions) (access : Accessors)
    {table : FieldTable} (built : table.Built) (m : Message) {a b : Bytes}
    (first : (m.merge schema options access table a).result = .ok ())
    (second : (m.merge schema options access table b).result = .ok ())
    (disjoint : (Decoding.knownNumbers schema options access table a).Disjoint
      (Decoding.knownNumbers schema options access table b)) :
    let ab := m.merge schema options access table (a ++ b)
    let ba := m.merge schema options access table (b ++ a)
    ab.result = .ok () ∧ ba.result = .ok () ∧ ab.message = ba.message := by
  intro ab ba
  obtain ⟨forth, message⟩ := merge_append_of_done first second
  obtain ⟨back, message'⟩ := merge_append_of_done second first
  have apart := Decoding.apart_of_disjoint built disjoint
  refine ⟨forth, back, ?_⟩
  calc ab.message
    _ = (Decoding.transcript schema options access table b).turns.foldl apply
          ((Decoding.transcript schema options access table a).turns.foldl apply m) := message
    _ = (Decoding.transcript schema options access table a).turns.foldl apply
          ((Decoding.transcript schema options access table b).turns.foldl apply m) :=
      foldl_foldl_apply_comm apart m
    _ = ba.message := message'.symm

/-- A name, a byte that begins no tag and an unknown field, against weights and a name of a wire
type that names do not have. -/
theorem merge_comm_stray :
    let a : Bytes := [0x0A, 0x01, 0x6E, 0x07, 0x28, 0x01]
    let b : Bytes := [0x12, 0x02, 0x01, 0x02, 0x08, 0x05]
    (Sample.leaf.merge Sample.schema {} .full Sample.table a).result = .ok () ∧
      (Sample.leaf.merge Sample.schema {} .full Sample.table b).result = .ok () ∧
      (Decoding.knownNumbers Sample.schema {} .full Sample.table a).Disjoint
        (Decoding.knownNumbers Sample.schema {} .full Sample.table b) ∧
      let ab := Sample.leaf.merge Sample.schema {} .full Sample.table (a ++ b)
      let ba := Sample.leaf.merge Sample.schema {} .full Sample.table (b ++ a)
      ab.result = .ok () ∧ ba.result = .ok () ∧ ab.message = ba.message := by
  intro a b
  have built : Sample.table.Built := ⟨"node", Sample.fields, rfl⟩
  have first : (Sample.leaf.merge Sample.schema {} .full Sample.table a).result = .ok () := by
    decide +kernel
  have second : (Sample.leaf.merge Sample.schema {} .full Sample.table b).result = .ok () := by
    decide +kernel
  have name : Decoding.knownNumbers Sample.schema {} .full Sample.table a = [⟨1, by decide⟩] := by
    decide +kernel
  have weights : Decoding.knownNumbers Sample.schema {} .full Sample.table b =
      [⟨2, by decide⟩] := by
    decide +kernel
  have disjoint : (Decoding.knownNumbers Sample.schema {} .full Sample.table a).Disjoint
      (Decoding.knownNumbers Sample.schema {} .full Sample.table b) := by
    rw [name, weights]
    exact List.singleton_disjoint.2 (by decide)
  exact ⟨first, second, disjoint,
    merge_comm Sample.schema {} .full built Sample.leaf first second disjoint⟩

end Message

end Protowire
