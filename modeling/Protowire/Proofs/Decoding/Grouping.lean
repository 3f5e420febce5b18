import Protowire.Proofs.Decoding.Repetition
import Protowire.Proofs.Decoding.Taken
import Protowire.Proofs.RoundTrip.Truncation

set_option autoImplicit false

/-!
# Packed and unpacked elements

A list whose elements pack can be written in records of one element each, in chunks, or in any
mixture of both, with other records between. The list gets the elements in order, and nothing of
how they were grouped remains. Only whole chunks count: one that is cut off in an element brings
none of its elements.
-/

namespace Protowire

/-- The bytes begin an element of the type and end in it. -/
def ScalarType.BreaksOff (t : ScalarType) (part : Bytes) : Prop :=
  part ≠ [] ∧ ∃ whole s, t.Spells whole s ∧ part <+: whole ∧ part ≠ whole

/-- Records of a list with the number, which bring the elements one by one or in chunks, and between
them other bytes. -/
inductive Grouping (number : FieldNumber) (t : ScalarType) :
    (bytes : Bytes) → (elements others : List Bytes) → Prop
  | nil : Grouping number t [] [] []
  | element {head e rest : Bytes} {elements others : List Bytes} :
      Tag.Spells head ⟨number, t.wireType⟩ → Grouping number t rest elements others →
      Grouping number t (head ++ e ++ rest) (e :: elements) others
  | chunk {head payload rest : Bytes} {chunk elements others : List Bytes} :
      Tag.Spells head ⟨number, .delimited⟩ → Varint.Delimits payload chunk.flatten →
      Grouping number t rest elements others →
      Grouping number t (head ++ payload ++ rest) (chunk ++ elements) others
  | other {b rest : Bytes} {elements others : List Bytes} :
      Grouping number t rest elements others →
      Grouping number t (b ++ rest) elements (b :: others)

theorem Grouping.single {number : FieldNumber} {t : ScalarType} {head payload : Bytes}
    {elements : List Bytes} (tagged : Tag.Spells head ⟨number, .delimited⟩)
    (framed : Varint.Delimits payload elements.flatten) :
    Grouping number t (head ++ payload) elements [] := by
  have alone := Grouping.chunk tagged framed (Grouping.nil (t := t))
  rwa [List.append_nil, List.append_nil] at alone

theorem Grouping.behind {number : FieldNumber} {t : ScalarType} {bytes : Bytes}
    {elements : List Bytes} (grouping : Grouping number t bytes elements [])
    (others : List Bytes) : Grouping number t (others.flatten ++ bytes) elements others := by
  induction others with
  | nil => exact grouping
  | cons b others ih =>
    rw [List.flatten_cons, List.append_assoc]
    exact .other ih

namespace Grammar

variable {schema : Schema} {language : Nat → Bytes → Message → Prop} {t : ScalarType}

theorem sequence_of_spells {elements : List Bytes} {values : List Scalar}
    (spelled : List.Forall₂ t.Spells elements values) :
    Sequence (Element language (.scalar t)) elements.flatten (values.map .scalar) := by
  induction spelled with
  | nil => exact .nil
  | cons first others ih => exact .cons (.scalar first) ih

variable {table : FieldTable} {field : FieldSlot} {head : Bytes}

theorem record_of_element (declared : field ∈ table.slots)
    (cardinality : field.cardinality = .repeated) (kind : field.kind = .scalar t) {bytes : Bytes}
    {s : Scalar} (tagged : Tag.Spells head ⟨field.number, t.wireType⟩)
    (spelled : t.Spells bytes s) :
    Record schema language table (head ++ bytes) (some (.append field.index [.scalar s])) := by
  have wire : field.kind.wireType = t.wireType := by rw [kind]; rfl
  have takes : field.Takes t.wireType .element := wire ▸ .element cardinality
  have element : Element language field.kind bytes (.scalar s) := kind ▸ .scalar spelled
  exact record_of_accepted tagged declared rfl takes ⟨_, element, rfl⟩

theorem record_of_chunk (declared : field ∈ table.slots)
    (cardinality : field.cardinality = .repeated) (kind : field.kind = .scalar t)
    (packable : field.kind.isPackable = true) {payload : Bytes} {chunk : List Bytes}
    {values : List Scalar} (tagged : Tag.Spells head ⟨field.number, .delimited⟩)
    (framed : Varint.Delimits payload chunk.flatten)
    (spelled : List.Forall₂ t.Spells chunk values) :
    Record schema language table (head ++ payload)
      (some (.append field.index (values.map .scalar))) :=
  record_of_accepted tagged declared rfl (.packed cardinality kind packable)
    ⟨_, framed, _, sequence_of_spells spelled, rfl⟩

end Grammar

namespace Read

variable {α : Type} {x : Read α} {hx : x.Consumes}

/-- Behind whole values, a part of one makes a loop run out of bytes. -/
theorem isShort_values_untilEnd {pieces : List Bytes} {part : Bytes}
    (taken : ∀ piece ∈ pieces, ∃ a, x.Takes piece a) (nonempty : part ≠ [])
    (short : ∀ offset, (x.run ⟨offset, part⟩).IsShort) (offset : Nat) :
    (x.untilEnd hx ⟨offset, pieces.flatten ++ part⟩).values.IsShort := by
  induction pieces generalizing offset with
  | nil =>
    obtain ⟨needed, remaining, failed⟩ := short offset
    refine ⟨needed, remaining, ?_⟩
    rw [List.flatten_nil, List.nil_append, untilEnd_of_error nonempty failed]
    rfl
  | cons piece pieces ih =>
    obtain ⟨⟨a, first⟩, others⟩ := List.forall_mem_cons.1 taken
    obtain ⟨log, turn⟩ := untilEnd_of_answersAt hx (first offset) (pieces.flatten ++ part)
    obtain ⟨needed, remaining, failed⟩ := ih others (offset + piece.length)
    refine ⟨needed, remaining, ?_⟩
    rw [List.flatten_cons, List.append_assoc, turn, Transcript.values, failed]
    rfl

/-- A window that is too short inside is answered, whatever comes behind it. -/
theorem exists_answersAt_delimited {inner : Cursor → Logged α} {payload content : Bytes}
    (framed : Varint.Delimits payload content) (short : ∀ start, (inner ⟨start, content⟩).IsShort)
    (offset : Nat) :
    ∃ needed remaining,
      (delimited inner).AnswersAt offset payload (.error (.underrun needed remaining)) := by
  obtain ⟨head, length, rfl, spelled, same⟩ := framed
  obtain ⟨needed, remaining, failed⟩ := short (offset + head.length)
  refine ⟨needed, remaining, (recognizes_varint.takes spelled).bind_answersAt ?_⟩
  rw [same]
  exact answersAt_window failed

end Read

namespace Message

variable {schema : Schema} {options : DecodeOptions} {m : Message} {field : FieldSlot}
  {t : ScalarType}

/-- A chunk that ends within an element fails for want of bytes, although there may be bytes behind
it, and brings nothing. -/
theorem merge_chunk_short {type : Nat} (same : m.type = type)
    (declared : field ∈ (schema.table type).slots)
    (cardinality : field.cardinality = .repeated) (kind : field.kind = .scalar t)
    (packable : field.kind.isPackable = true) {head payload part : Bytes}
    {chunk : List Bytes} (tagged : Tag.Spells head ⟨field.number, .delimited⟩)
    (framed : Varint.Delimits payload (chunk.flatten ++ part))
    (elements : ∀ e ∈ chunk, ∃ s, t.Spells e s) (breaksOff : t.BreaksOff part) (rest : Bytes) :
    ∃ needed remaining log, m.merge schema options .full (schema.table type)
      (head ++ payload ++ rest) = ⟨⟨m, .error (.underrun needed remaining)⟩, log⟩ := by
  subst same
  obtain ⟨nonempty, whole, s, spelled, cut, proper⟩ := breaksOff
  have read := t.recognizes_read.takes spelled
  have short (offset : Nat) : (t.read.run ⟨offset, part⟩).IsShort :=
    read.isShort_of_prefix t.follows_read cut proper offset
  have taken : ∀ e ∈ chunk, ∃ s, t.read.Takes e s := by
    intro e he
    obtain ⟨s, spelled⟩ := elements e he
    exact ⟨s, t.recognizes_read.takes spelled⟩
  have chunkShort : ∃ needed remaining, (Decoding.packed t).AnswersAt (0 + head.length) payload
      (.error (.underrun needed remaining)) :=
    Read.exists_answersAt_delimited framed
      (fun start => Read.isShort_values_untilEnd taken nonempty short start) _
  obtain ⟨needed, remaining, answers⟩ := chunkShort
  have fails : (Decoding.record schema options.malformedTags
      (Decoding.message schema options .full options.recursionLimit.toNat)
      (schema.table m.type)).AnswersAt 0 (head ++ payload)
        (.error (.underrun needed remaining)) :=
    Decoding.answersAt_record_of_spells tagged declared (.packed cardinality kind packable)
      (answers.bind_pure _)
  have started : head ++ payload ≠ [] := List.append_ne_nil_of_left_ne_nil
    (Tag.consumes_read.ne_nil (Tag.recognizes_read.takes tagged)) payload
  obtain ⟨log, ends⟩ := Decoding.transcript_record_error started fails rest
  refine ⟨needed, remaining, log, ?_⟩
  rw [merge, ends]
  rfl

theorem apply_append_append {i : Nat} (vs ws : List Value) :
    (m.apply (some (.append i vs))).apply (some (.append i ws)) =
      m.apply (some (.append i (vs ++ ws))) :=
  List.foldl_append.symm

theorem apply_append {i : Nat} (stored : m.put i (.repeated (m.slot i).elements) = m)
    (vs : List Value) :
    m.apply (some (.append i vs)) = m.put i (.repeated ((m.slot i).elements ++ vs)) := by
  cases vs with
  | nil =>
    rw [List.append_nil, stored]
    rfl
  | cons v vs => exact foldl_push_cons m i v vs

/-- What is appended between updates of other slots can as well be appended behind them. -/
theorem append_foldl_append {i : Nat} {os : List (Option Update)}
    (elsewhere : ∀ u, some u ∈ os → u.slot ≠ i) (vs ws : List Value) :
    (os.foldl apply (m.apply (some (.append i vs)))).apply (some (.append i ws)) =
      (os.foldl apply m).apply (some (.append i (vs ++ ws))) := by
  have apart : Apart [some (.append i vs)] os := by
    intro u u' hu hu' same
    cases List.mem_singleton.1 hu
    exact elsewhere u' hu' same.symm
  rw [foldl_apply_comm apart, apply_append_append]

end Message

namespace Decoding

/-- All that the inputs bring. -/
def allTurns (schema : Schema) (options : DecodeOptions) (table : FieldTable) (bs : List Bytes) :
    List (Option Update) :=
  bs.flatMap fun b => (transcript schema options .full table b).turns

variable {schema : Schema} {options : DecodeOptions} {bs : List Bytes}

theorem allTurns_cons {table : FieldTable} {b : Bytes} :
    allTurns schema options table (b :: bs) =
      (transcript schema options .full table b).turns ++ allTurns schema options table bs :=
  List.flatMap_cons

theorem slot_ne_of_mem_allTurns {type : Nat} {field : FieldSlot}
    (declared : field ∈ (schema.table type).slots)
    (elsewhere : ∀ b ∈ bs, field.number ∉ knownNumbers schema options .full (schema.table type) b) :
    ∀ u, some u ∈ allTurns schema options (schema.table type) bs → u.slot ≠ field.index := by
  intro u h same
  obtain ⟨b, hb, turn⟩ := List.mem_flatMap.1 h
  have built := schema.built_table type
  obtain ⟨n, known, number⟩ := exists_number_of_mem_turns built turn
  rw [Update.number?, same, built.consistent.getElem?_index declared] at number
  obtain rfl : field.number = n := Option.some.inj number
  exact elsewhere b hb known

theorem suits_of_mem_allTurns {type : Nat} (bs : List Bytes) :
    ∀ o ∈ allTurns schema options (schema.table type) bs, ∀ u, o = some u →
      u.Suits schema type := by
  intro o h
  obtain ⟨b, -, turn⟩ := List.mem_flatMap.1 h
  exact suits_of_mem_turns schema options .full type b o turn

end Decoding

namespace Message

variable {schema : Schema} {options : DecodeOptions} {m m₀ : Message} {field : FieldSlot}
  {t : ScalarType} {others : List Bytes}

/-- What can be decoded into some message of the type brings the same to any other. -/
theorem merge_of_done {table : FieldTable} {b : Bytes} (same : m.type = m₀.type)
    (done : (m₀.merge schema options .full table b).result = .ok ()) :
    ∃ log, m.merge schema options .full table b =
      ⟨⟨(Decoding.transcript schema options .full table b).turns.foldl apply m, .ok ()⟩, log⟩ := by
  obtain ⟨result, message⟩ := replay_of_done same done
  refine ⟨(m.merge schema options .full table b).log, ?_⟩
  rw [← result, ← message]
  rfl

theorem merge_flatten {table : FieldTable} (same : m.type = m₀.type)
    (done : ∀ b ∈ others, (m₀.merge schema options .full table b).result = .ok ()) :
    ∃ log, m.merge schema options .full table others.flatten =
      ⟨⟨(Decoding.allTurns schema options table others).foldl apply m, .ok ()⟩, log⟩ := by
  induction others generalizing m with
  | nil => exact ⟨_, merge_nil _ _⟩
  | cons b others ih =>
    obtain ⟨first, rest⟩ := List.forall_mem_cons.1 done
    obtain ⟨log, made⟩ := merge_of_done same first
    obtain ⟨log', left⟩ := ih ((type_foldl_apply m _).trans same) rest
    rw [List.flatten_cons, merge_behind made, left, Decoding.allTurns_cons, List.foldl_append]
    exact ⟨_, rfl⟩

/-- However the elements are grouped, they are what the slot gets behind all that the other inputs
bring. -/
theorem merge_of_grouping (declared : field ∈ (schema.table m₀.type).slots)
    (cardinality : field.cardinality = .repeated) (kind : field.kind = .scalar t)
    (packable : field.kind.isPackable = true) {elements : List Bytes} {values : List Scalar}
    (spelled : List.Forall₂ t.Spells elements values)
    (done : ∀ b ∈ others,
      (m₀.merge schema options .full (schema.table m₀.type) b).result = .ok ())
    (elsewhere : ∀ b ∈ others,
      field.number ∉ Decoding.knownNumbers schema options .full (schema.table m₀.type) b)
    {bytes : Bytes} (grouping : Grouping field.number t bytes elements others)
    (same : m.type = m₀.type) :
    ∃ log, m.merge schema options .full (schema.table m₀.type) bytes =
      ⟨⟨((Decoding.allTurns schema options (schema.table m₀.type) others).foldl apply m).apply
        (some (.append field.index (values.map .scalar))), .ok ()⟩, log⟩ := by
  -- whatever a record appends is moved behind all that stands between it and the next one
  induction grouping generalizing m values with
  | nil =>
    cases spelled
    exact ⟨_, merge_nil _ _⟩
  | @element head e rest elements others tagged grouping ih =>
    cases spelled with
    | @cons _ s _ values first spelled =>
      obtain ⟨log, made⟩ := merge_record same
        (Grammar.record_of_element declared cardinality kind tagged first)
      obtain ⟨log', left⟩ := ih spelled done elsewhere ((type_apply m _).trans same)
      have slots := Decoding.slot_ne_of_mem_allTurns declared elsewhere
      rw [merge_behind made, left, append_foldl_append slots]
      exact ⟨_, rfl⟩
  | @chunk head payload rest chunk elements others tagged framed grouping ih =>
    have first := List.forall₂_take chunk.length spelled
    have behind := List.forall₂_drop chunk.length spelled
    rw [List.take_left] at first
    rw [List.drop_left] at behind
    obtain ⟨log, made⟩ := merge_record same
      (Grammar.record_of_chunk declared cardinality kind packable tagged framed first)
    obtain ⟨log', left⟩ := ih behind done elsewhere ((type_apply m _).trans same)
    have slots := Decoding.slot_ne_of_mem_allTurns declared elsewhere
    rw [merge_behind made, left, append_foldl_append slots, ← List.map_append,
      List.take_append_drop]
    exact ⟨_, rfl⟩
  | @other b rest elements others grouping ih =>
    obtain ⟨first, done⟩ := List.forall_mem_cons.1 done
    obtain ⟨-, elsewhere⟩ := List.forall_mem_cons.1 elsewhere
    obtain ⟨log, made⟩ := merge_of_done same first
    obtain ⟨log', left⟩ := ih spelled done elsewhere ((type_foldl_apply m _).trans same)
    rw [merge_behind made, left, Decoding.allTurns_cons, List.foldl_append]
    exact ⟨_, rfl⟩

/-- Elements of a list whose elements pack, written as records of one element and as chunks of any
size in any mixture, with anything between that can be decoded and brings nothing for the list. The
list gets the elements in order, behind what it had, and all else is as if they had not been there:
other slots hold what the other inputs alone make of them.
So the grouping does not matter, and a single chunk does as well. A chunk that breaks off in an
element ends decoding and brings none of its elements. -/
theorem merge_grouping (schema : Schema) (options : DecodeOptions) (m : Message)
    (fits : m.Fits schema (schema.table m.type)) {field : FieldSlot} {t : ScalarType}
    (declared : field ∈ (schema.table m.type).slots)
    (cardinality : field.cardinality = .repeated) (kind : field.kind = .scalar t)
    (packable : field.kind.isPackable = true) {elements : List Bytes} {values : List Scalar}
    (spelled : List.Forall₂ t.Spells elements values) {others : List Bytes}
    (done : ∀ b ∈ others, (m.merge schema options .full (schema.table m.type) b).result = .ok ())
    (elsewhere : ∀ b ∈ others,
      field.number ∉ Decoding.knownNumbers schema options .full (schema.table m.type) b)
    {bytes : Bytes} (grouping : Grouping field.number t bytes elements others) :
    let decode (bytes : Bytes) := m.merge schema options .full (schema.table m.type) bytes
    let decoded := decode bytes
    let aside := decode others.flatten
    decoded.result = .ok () ∧ aside.result = .ok () ∧
      aside.message.slot field.index = m.slot field.index ∧
      decoded.message = aside.message.put field.index
        (.repeated ((m.slot field.index).elements ++ values.map .scalar)) ∧
      decoded.message.slot field.index =
        .repeated ((m.slot field.index).elements ++ values.map .scalar) ∧
      (∀ i, i ≠ field.index → decoded.message.slot i = aside.message.slot i) ∧
      (∀ bytes', Grouping field.number t bytes' elements others →
        (decode bytes').result = .ok () ∧ (decode bytes').message = decoded.message) ∧
      (∀ head payload, Tag.Spells head ⟨field.number, .delimited⟩ →
        Varint.Delimits payload elements.flatten →
        let single := decode (others.flatten ++ (head ++ payload))
        single.result = .ok () ∧ single.message = decoded.message) ∧
      ∀ head payload (chunk : List Bytes) part rest, Tag.Spells head ⟨field.number, .delimited⟩ →
        Varint.Delimits payload (chunk.flatten ++ part) →
        (∀ e ∈ chunk, ∃ s, t.Spells e s) → t.BreaksOff part →
        let failed := decode (bytes ++ (head ++ payload ++ rest))
        (∃ needed remaining, failed.result = .error (.underrun needed remaining)) ∧
          failed.message = decoded.message := by
  intro decode decoded aside
  let turns := Decoding.allTurns schema options (schema.table m.type) others
  let final := (turns.foldl apply m).apply (some (.append field.index (values.map .scalar)))
  have whole (bytes : Bytes) (grouping : Grouping field.number t bytes elements others) :
      ∃ log, decode bytes = ⟨⟨final, .ok ()⟩, log⟩ :=
    merge_of_grouping declared cardinality kind packable spelled done elsewhere grouping rfl
  obtain ⟨log, eq⟩ : ∃ log, decoded = ⟨⟨final, .ok ()⟩, log⟩ := whole bytes grouping
  obtain ⟨asideLog, asideEq⟩ : ∃ log, aside = ⟨⟨turns.foldl apply m, .ok ()⟩, log⟩ :=
    merge_flatten rfl done
  have untouched : (turns.foldl apply m).slot field.index = m.slot field.index :=
    slot_foldl_apply_of_ne (Decoding.slot_ne_of_mem_allTurns declared elsewhere)
  have stored : (turns.foldl apply m).put field.index
      (.repeated ((turns.foldl apply m).slot field.index).elements) = turns.foldl apply m :=
    put_elements (fits_foldl_apply fits (Decoding.suits_of_mem_allTurns others))
      ((schema.built_table m.type).consistent.getElem?_index declared) cardinality
  have same (bytes' : Bytes) (other : Grouping field.number t bytes' elements others) :
      (decode bytes').result = .ok () ∧ (decode bytes').message = decoded.message := by
    obtain ⟨log', eq'⟩ := whole bytes' other
    rw [eq', eq]
    exact ⟨rfl, rfl⟩
  have message : decoded.message = aside.message.put field.index
      (.repeated ((m.slot field.index).elements ++ values.map .scalar)) := by
    rw [eq, asideEq, ← untouched]
    exact apply_append stored _
  refine ⟨?result, ?aside, ?slot, message, ?list, ?others, same, ?single, ?short⟩
  case result => rw [eq]
  case aside => rw [asideEq]
  case slot => rw [asideEq]; exact untouched
  case list => rw [message, slot_put]
  case others =>
    intro i other
    rw [message, slot_put_of_ne other]
  case single =>
    intro head payload tagged framed
    exact same _ ((Grouping.single tagged framed).behind others)
  case short =>
    intro head payload chunk part rest tagged framed complete breaksOff failed
    have type : final.type = m.type := (type_apply _ _).trans (type_foldl_apply m turns)
    obtain ⟨needed, remaining, log', ends⟩ := @merge_chunk_short schema options _ _ _ _ type
      declared cardinality kind packable _ _ _ _ tagged framed complete breaksOff rest
    have behind : failed = _ := merge_behind eq (head ++ payload ++ rest)
    rw [behind, ends, eq]
    exact ⟨⟨needed, remaining, rfl⟩, rfl⟩

/-- Weights behind others: one alone, none in an empty chunk, and two in a chunk whose tag is
spelled with a byte too many, as one of them is. Between them stand a name and a byte that begins no
tag. -/
theorem merge_grouping_weights :
    let weights : FieldSlot := ⟨.value, 2, "weights", .repeated, .scalar .sint32⟩
    let other : Bytes := [0x0A, 0x01, 0x6E, 0x07]
    let elements : List Bytes := [[0x02], [0x84, 0x00], [0x06]]
    let bytes : Bytes := [0x10, 0x02, 0x12, 0x00] ++ other ++ [0x92, 0x00, 0x03, 0x84, 0x00, 0x06]
    let decode (bytes : Bytes) :=
      Sample.node.merge Sample.schema {} .full (Sample.schema.table Sample.node.type) bytes
    let decoded := decode bytes
    let aside := decode [other].flatten
    Sample.node.Fits Sample.schema (Sample.schema.table Sample.node.type) ∧
      weights ∈ (Sample.schema.table Sample.node.type).slots ∧
      List.Forall₂ ScalarType.sint32.Spells elements [.i32 1, .i32 2, .i32 3] ∧
      (∀ b ∈ [other], (decode b).result = .ok ()) ∧
      (∀ b ∈ [other], weights.number ∉ Decoding.knownNumbers Sample.schema {} .full
        (Sample.schema.table Sample.node.type) b) ∧
      Grouping weights.number .sint32 bytes elements [other] ∧
      decoded.result = .ok () ∧ aside.result = .ok () ∧
      aside.message.slot weights.index = Sample.node.slot weights.index ∧
      decoded.message = aside.message.put weights.index
        (.repeated ((Sample.node.slot weights.index).elements ++
          [Scalar.i32 1, .i32 2, .i32 3].map .scalar)) ∧
      decoded.message.slot weights.index = .repeated ((Sample.node.slot weights.index).elements ++
        [Scalar.i32 1, .i32 2, .i32 3].map .scalar) ∧
      (∀ i, i ≠ weights.index → decoded.message.slot i = aside.message.slot i) ∧
      (∀ bytes', Grouping weights.number .sint32 bytes' elements [other] →
        (decode bytes').result = .ok () ∧ (decode bytes').message = decoded.message) ∧
      (∀ head payload, Tag.Spells head ⟨weights.number, .delimited⟩ →
        Varint.Delimits payload elements.flatten →
        let single := decode ([other].flatten ++ (head ++ payload))
        single.result = .ok () ∧ single.message = decoded.message) ∧
      ∀ head payload (chunk : List Bytes) part rest, Tag.Spells head ⟨weights.number, .delimited⟩ →
        Varint.Delimits payload (chunk.flatten ++ part) →
        (∀ e ∈ chunk, ∃ s, ScalarType.sint32.Spells e s) → ScalarType.sint32.BreaksOff part →
        let failed := decode (bytes ++ (head ++ payload ++ rest))
        (∃ needed remaining, failed.result = .error (.underrun needed remaining)) ∧
          failed.message = decoded.message := by
  intro weights other elements bytes decode decoded aside
  have declared : weights ∈ (Sample.schema.table Sample.node.type).slots := by decide
  have spelled : List.Forall₂ ScalarType.sint32.Spells elements [.i32 1, .i32 2, .i32 3] :=
    .cons ⟨.varint 2, Varint.spells_encode 2, rfl⟩
      (.cons ⟨.varint 4, ⟨⟨[0x84], 0x00, rfl, by decide, by simp, by decide⟩, rfl⟩, rfl⟩
        (.cons ⟨.varint 6, Varint.spells_encode 6, rfl⟩ .nil))
  have done : ∀ b ∈ [other], (decode b).result = .ok () := by
    intro b hb
    rw [List.mem_singleton.1 hb]
    decide +kernel
  have name : Decoding.knownNumbers Sample.schema {} .full
      (Sample.schema.table Sample.node.type) other = [.key] := by decide +kernel
  have elsewhere : ∀ b ∈ [other], weights.number ∉ Decoding.knownNumbers Sample.schema {} .full
      (Sample.schema.table Sample.node.type) b := by
    intro b hb
    rw [List.mem_singleton.1 hb, name]
    decide
  have plain : Tag.Spells [0x10] ⟨.value, .varint⟩ := Tag.spells_encode ⟨.value, .varint⟩
  have packed : Tag.Spells [0x12] ⟨.value, .delimited⟩ := Tag.spells_encode ⟨.value, .delimited⟩
  have long : Tag.Spells [0x92, 0x00] ⟨.value, .delimited⟩ :=
    ⟨0x12, ⟨⟨[0x92], 0x00, rfl, by decide, by simp, by decide⟩, rfl⟩, rfl⟩
  have empty : Varint.Delimits [0x00] ([] : List Bytes).flatten :=
    @Varint.delimits_delimit [] (by decide)
  have last : Grouping .value .sint32 [0x92, 0x00, 0x03, 0x84, 0x00, 0x06]
      [[0x84, 0x00], [0x06]] [] :=
    Grouping.single long (@Varint.delimits_delimit [0x84, 0x00, 0x06] (by decide))
  have behind := Grouping.chunk packed empty (@Grouping.other _ _ other _ _ _ last)
  have grouping : Grouping weights.number .sint32 bytes elements [other] :=
    @Grouping.element _ _ _ [0x02] _ _ _ plain behind
  exact ⟨Sample.node_fits, declared, spelled, done, elsewhere, grouping,
    merge_grouping Sample.schema {} Sample.node Sample.node_fits declared rfl rfl rfl spelled done
      elsewhere grouping⟩

end Message

end Protowire
