import Mathlib.Data.List.Infix
import Protowire.Proofs.Decoding.Concatenation
import Protowire.Proofs.RoundTrip

set_option autoImplicit false

/-!
# Written messages cut short

A cut between two records leaves the encoding of a message of its own, which has the records in
front of the cut and nothing else. A cut anywhere else leaves a record that wants more bytes than
there are, and that is how decoding ends.
-/

namespace Protowire

/-- A cut through pieces in a row falls behind some of them or within the next one. -/
theorem prefix_flatMap_cases {α : Type} {pieces : List α} {bytes : α → Bytes} {front : Bytes}
    (h : front <+: pieces.flatMap bytes) :
    (∃ n, front = (pieces.take n).flatMap bytes) ∨
      ∃ n piece part, piece ∈ pieces ∧ front = (pieces.take n).flatMap bytes ++ part ∧
        part <+: bytes piece ∧ part ≠ [] ∧ part ≠ bytes piece := by
  induction pieces generalizing front with
  | nil => exact .inl ⟨0, List.prefix_nil.1 h⟩
  | cons piece pieces ih =>
    rw [List.flatMap_cons] at h
    rcases List.prefix_or_prefix_of_prefix h (List.prefix_append _ _) with inside | ⟨rest, rfl⟩
    · by_cases empty : front = []
      · exact .inl ⟨0, empty⟩
      · by_cases whole : front = bytes piece
        · exact .inl ⟨1, by simp [whole]⟩
        · exact .inr ⟨0, piece, front, List.mem_cons_self, rfl, inside, empty, whole⟩
    · rcases ih ((List.prefix_append_right_inj _).1 h) with
        ⟨n, rfl⟩ | ⟨n, other, part, ho, rfl, cut⟩
      · exact .inl ⟨n + 1, rfl⟩
      · refine .inr ⟨n + 1, other, part, List.mem_cons_of_mem _ ho, ?_, cut⟩
        rw [List.take_succ_cons, List.flatMap_cons, List.append_assoc]

/-- A read that takes the whole runs out of bytes on any part. Had it not, it would have left the
missing bytes unread on the whole. -/
theorem Read.Takes.isShort_of_prefix {α : Type} {x : Read α} {bytes part : Bytes} {a : α}
    (taken : x.Takes bytes a) (follows : Follows (.shift 0) x x) (cut : part <+: bytes)
    (proper : part ≠ bytes) (offset : Nat) : (x.run ⟨offset, part⟩).IsShort := by
  obtain ⟨missing, rfl⟩ := cut
  apply Classical.byContradiction
  intro enough
  have whole := follows ⟨offset, part⟩ missing fun isShort => (enough isShort).elim
  have rest := (takes_iff.1 taken offset []).2
  have place : (⟨offset, part ++ missing ++ []⟩ : Cursor) =
      (⟨offset, part⟩ : Cursor).relocate (.shift 0) missing := by
    rw [List.append_nil]
    rfl
  rw [place, whole] at rest
  have nothing : (x.run ⟨offset, part⟩).rest.unread ++ missing = [] := congrArg Cursor.unread rest
  obtain ⟨-, rfl⟩ := List.append_eq_nil_iff.1 nothing
  exact proper (List.append_nil part).symm

namespace Reference

variable {schema : Schema} {field : FieldSlot} {s : Slot}

theorem records_freshSlot (field : FieldSlot) :
    records schema field (Schema.freshSlot field) = [] := by
  obtain ⟨number, index, name, cardinality, kind⟩ := field
  cases cardinality with
  | single =>
    cases kind with
    | scalar t => simp [Schema.freshSlot, records, Kind.isDefault]
    | message type => rfl
  | repeated => rfl
  | map key => rfl

/-- A slot that has the first records and no others. -/
theorem exists_records_take (h : field.Holds schema s) (n : Nat) :
    ∃ kept, field.Holds schema kept ∧
      records schema field kept = (records schema field s).take n := by
  have blank : ∃ kept, field.Holds schema kept ∧ records schema field kept = [] :=
    ⟨_, Message.holds_freshSlot field, records_freshSlot field⟩
  -- a slot with a single record is kept as it is or not at all
  have single (r : Bytes × Update) (only : records schema field s = [r]) :
      ∃ kept, field.Holds schema kept ∧
        records schema field kept = (records schema field s).take n := by
    cases n with
    | zero => exact blank
    | succ n => exact ⟨s, h, by rw [only, List.take_succ_cons, List.take_nil]⟩
  cases h with
  | unset cardinality kind => exact ⟨.unset, .unset cardinality kind, List.take_nil.symm⟩
  | @single _ v cardinality value =>
    by_cases omitted : field.kind.isDefault v = true
    · refine ⟨.single v, .single cardinality value, ?_⟩
      simp only [records, if_pos omitted, List.take_nil]
    · exact single _ (if_neg omitted)
  | @repeated _ vs cardinality values =>
    by_cases empty : vs.isEmpty = true
    · refine ⟨.repeated vs, .repeated cardinality values, ?_⟩
      simp only [records, if_pos empty, List.take_nil]
    · by_cases packed : field.kind.isPackable = true
      · have only : records schema field (.repeated vs) =
            [((Tag.mk field.number .delimited).encode ++
              Varint.delimit (elements schema [] field.kind vs), .append field.index vs)] := by
          simp only [records, if_neg empty, if_pos packed]
        exact single _ only
      · have front : ∀ v ∈ vs.take n, field.kind.Holds schema v :=
          fun v hv => values v (List.mem_of_mem_take hv)
        refine ⟨.repeated (vs.take n), .repeated cardinality front, ?_⟩
        cases first : vs.take n with
        | nil => simp [records, empty, packed, ← List.map_take, first]
        | cons v rest => simp [records, empty, packed, ← List.map_take, first]
  | @map _ key es cardinality keys values sorted =>
    refine ⟨.map (es.take n), .map cardinality (fun e he => keys e (List.mem_of_mem_take he))
      (fun e he => values e (List.mem_of_mem_take he))
      (sorted.sublist (List.take_sublist n es)), ?_⟩
    simp only [records, cardinality, List.map_take]

theorem exists_allRecords_take {fields : List FieldSlot} {ss : List Slot}
    (h : List.Forall₂ (FieldSlot.Holds schema) fields ss) (n : Nat) :
    ∃ kept, List.Forall₂ (FieldSlot.Holds schema) fields kept ∧
      allRecords schema fields kept = (allRecords schema fields ss).take n := by
  induction h generalizing n with
  | nil => exact ⟨[], .nil, List.take_nil.symm⟩
  | @cons field s fields ss hs hss ih =>
    obtain ⟨first, holds, front⟩ := exists_records_take hs n
    obtain ⟨others, rest, behind⟩ := ih (n - (records schema field s).length)
    refine ⟨first :: others, .cons holds rest, ?_⟩
    rw [allRecords, allRecords, List.take_append, front, behind]

end Reference

namespace Message

variable {schema : Schema} {m : Message}

/-- The records in front of a cut make up a message that fits the same type. -/
theorem exists_kept (fits : m.Fits schema (schema.table m.type)) (n : Nat) :
    let records := Reference.allRecords schema (schema.table m.type).slots m.slots
    ∃ kept : Message, kept.type = m.type ∧ kept.Fits schema (schema.table m.type) ∧
      Reference.allRecords schema (schema.table m.type).slots kept.slots = records.take n ∧
      Reference.message schema (schema.table m.type) kept =
        (records.take n).flatMap Prod.fst ∧
      kept = ((records.take n).map fun r => some r.2).foldl apply (schema.fresh m.type) := by
  obtain ⟨type, ss⟩ := m
  cases fits with
  | slots holds =>
    obtain ⟨kept, fits, first⟩ := Reference.exists_allRecords_take holds n
    have index : ∀ i field, (schema.table type).slots[i]? = some field →
        field.index = ([] : List Slot).length + i := by
      intro i field hf
      rw [List.length_nil, Nat.zero_add]
      exact (schema.built_table type).consistent.index hf
    refine ⟨⟨type, kept⟩, rfl, .slots fits, first, ?_, ?_⟩
    · rw [Reference.message, ← Reference.flatMap_allRecords, first]
    · rw [← first]
      exact (foldl_allRecords fits index).symm

/-- Decoding the records in front of a cut gives the message that has them. -/
theorem merge_take {options : DecodeOptions} (fits : m.Fits schema (schema.table m.type))
    (small : (Reference.message schema (schema.table m.type) m).length < 2 ^ 64)
    (nests : m.depth ≤ options.recursionLimit.toNat) (n : Nat) :
    let kept := (Reference.allRecords schema (schema.table m.type).slots m.slots).take n
    let decoded := (schema.fresh m.type).merge schema options .full (schema.table m.type)
      (kept.flatMap Prod.fst)
    decoded.result = .ok () ∧
      decoded.message = (kept.map fun r => some r.2).foldl apply (schema.fresh m.type) ∧
      (decoded.message.encode schema (schema.table m.type)).result =
        .ok (kept.flatMap Prod.fst) := by
  intro kept decoded
  obtain ⟨front, type, front_fits, records, bytes, filled⟩ := exists_kept fits n
  have shorter : (Reference.message schema (schema.table m.type) front).length < 2 ^ 64 := by
    refine Nat.lt_of_le_of_lt ?_ small
    obtain ⟨type, ss⟩ := m
    rw [bytes, Reference.message, ← Reference.flatMap_allRecords]
    exact ((List.take_prefix n _).flatMap Prod.fst).length_le
  have flatter : front.depth ≤ options.recursionLimit.toNat := by
    obtain ⟨type, ss⟩ := m
    obtain ⟨_, fs⟩ := front
    cases fits with
    | slots holds =>
      cases front_fits with
      | slots front_holds =>
        rw [Message.depth] at nests ⊢
        rw [← Reference.depth_allRecords holds] at nests
        rw [← Reference.depth_allRecords front_holds, records]
        exact fun r hr => nests r (List.mem_of_mem_take hr)
  rw [← type] at shorter front_fits
  have read := merge_reference options front_fits shorter
  rw [Decoding.within_of_true flatter, type, bytes] at read
  obtain ⟨done, message⟩ := Decoded.toLogged_eq_ok_iff.1 read
  refine ⟨done, message.trans filled, ?_⟩
  rw [message, ← bytes, ← type]
  exact encode_of_fits front_fits

/-- A part of a record that is not all of it is an input that ends too soon. -/
theorem merge_part {options : DecodeOptions} (fits : m.Fits schema (schema.table m.type))
    (small : (Reference.message schema (schema.table m.type) m).length < 2 ^ 64)
    (nests : m.depth ≤ options.recursionLimit.toNat) {r : Bytes × Update}
    (hr : r ∈ Reference.allRecords schema (schema.table m.type).slots m.slots) {part : Bytes}
    (cut : part <+: r.1) (nonempty : part ≠ []) (proper : part ≠ r.1) (m' : Message) :
    ∃ needed remaining, (m'.merge schema options .full (schema.table m.type) part).result =
      .error (.underrun needed remaining) := by
  obtain ⟨type, ss⟩ := m
  cases fits with
  | slots holds =>
    simp only at holds small hr ⊢
    rw [Message.depth, ← Reference.depth_allRecords holds] at nests
    rw [Reference.message] at small
    let nested := Decoding.message schema options .full options.recursionLimit.toNat
    have answers := @Decoding.answers_allRecords schema options.malformedTags _ _ nested
      (Decoding.returns_message schema options _) type _ _ holds (fun _ hf => hf) small r hr
    rw [Decoding.within_of_true (nests r hr)] at answers
    have taken : (Decoding.record schema options.malformedTags nested (schema.table type)).Takes
        r.1 (some r.2) := answers.2
    obtain ⟨needed, remaining, short⟩ := taken.isShort_of_prefix
      (Decoding.follows_whole schema options .full (schema.table type) 0) cut proper 0
    refine ⟨needed, remaining, ?_⟩
    rw [merge, Decoding.transcript, Decoding.records, Cursor.ofBytes,
      Read.untilEnd_of_error nonempty short]
    rfl

/-- The encoding of a message, cut anywhere. In front of a cut between two records stands the
encoding of the message that has the first records only, and that is what is decoded. At any other
cut the input ends too soon, and this is the error. -/
theorem merge_prefix (schema : Schema) (options : DecodeOptions) (m : Message)
    (fits : m.Fits schema (schema.table m.type))
    (small : ∀ n, m.encodedSize schema (schema.table m.type) = .ok n → n < 2 ^ 64)
    (nests : m.depth ≤ options.recursionLimit.toNat) :
    let records := Reference.allRecords schema (schema.table m.type).slots m.slots
    ∃ bytes, (m.encode schema (schema.table m.type)).result = .ok bytes ∧
      bytes = records.flatMap Prod.fst ∧
      ∀ front, front <+: bytes →
        let decoded :=
          (schema.fresh m.type).merge schema options .full (schema.table m.type) front
        (∀ n, front = (records.take n).flatMap Prod.fst →
          decoded.result = .ok () ∧
          decoded.message =
            ((records.take n).map fun r => some r.2).foldl apply (schema.fresh m.type) ∧
          (decoded.message.encode schema (schema.table m.type)).result = .ok front) ∧
        ((∀ n, front ≠ (records.take n).flatMap Prod.fst) →
          ∃ needed remaining, decoded.result = .error (.underrun needed remaining)) := by
  intro records
  have written := encode_of_fits fits
  have short : (Reference.message schema (schema.table m.type) m).length < 2 ^ 64 := by
    refine small _ ?_
    rw [← length_encode, written]
    rfl
  have pieces : Reference.message schema (schema.table m.type) m = records.flatMap Prod.fst := by
    obtain ⟨type, ss⟩ := m
    rw [Reference.message, Reference.flatMap_allRecords]
  refine ⟨_, written, pieces, fun front cut => ⟨?between, ?within⟩⟩
  case between =>
    intro n boundary
    subst boundary
    exact merge_take fits short nests n
  case within =>
    intro elsewhere
    rw [pieces] at cut
    obtain ⟨n, boundary⟩ | ⟨n, r, part, hr, rfl, inside, nonempty, proper⟩ :=
      prefix_flatMap_cases cut
    · exact absurd boundary (elsewhere n)
    · let kept := (schema.fresh m.type).merge schema options .full (schema.table m.type)
        ((records.take n).flatMap Prod.fst)
      have done : kept.result = .ok () := (merge_take fits short nests n).1
      have first : kept = ⟨⟨kept.message, .ok ()⟩, kept.log⟩ := by rw [← done]
      obtain ⟨needed, remaining, ends⟩ :=
        merge_part fits short nests hr inside nonempty proper kept.message
      refine ⟨needed, remaining, ?_⟩
      rw [merge_behind first, Decoded.result_after, Decoded.result_relocate, ends]
      rfl

/-- Two levels of nodes, where no more are allowed. -/
theorem merge_prefix_node :
    Sample.node.Fits Sample.schema (Sample.schema.table 0) ∧
    (∀ n, Sample.node.encodedSize Sample.schema (Sample.schema.table 0) = .ok n → n < 2 ^ 64) ∧
    Sample.node.depth ≤ 1 ∧
    let records :=
      Reference.allRecords Sample.schema (Sample.schema.table 0).slots Sample.node.slots
    ∃ bytes, (Sample.node.encode Sample.schema (Sample.schema.table 0)).result = .ok bytes ∧
      bytes = records.flatMap Prod.fst ∧
      ∀ front, front <+: bytes →
        let decoded := (Sample.schema.fresh 0).merge Sample.schema ⟨.reject, 1⟩ .full
          (Sample.schema.table 0) front
        (∀ n, front = (records.take n).flatMap Prod.fst →
          decoded.result = .ok () ∧
          decoded.message =
            ((records.take n).map fun r => some r.2).foldl apply (Sample.schema.fresh 0) ∧
          (decoded.message.encode Sample.schema (Sample.schema.table 0)).result = .ok front) ∧
        ((∀ n, front ≠ (records.take n).flatMap Prod.fst) →
          ∃ needed remaining, decoded.result = .error (.underrun needed remaining)) := by
  have size : Sample.node.encodedSize Sample.schema (Sample.schema.table 0) = .ok 50 := by decide
  have small : ∀ n,
      Sample.node.encodedSize Sample.schema (Sample.schema.table 0) = .ok n → n < 2 ^ 64 := by
    intro n h
    rw [size] at h
    cases h
    decide
  have nests : Sample.node.depth ≤ 1 := by decide
  exact ⟨Sample.node_fits, small, nests,
    merge_prefix Sample.schema ⟨.reject, 1⟩ Sample.node Sample.node_fits small nests⟩

end Message

end Protowire
