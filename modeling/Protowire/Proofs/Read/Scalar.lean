import Protowire.Proofs.Payload
import Protowire.Proofs.Read
import Protowire.Read.Scalar

set_option autoImplicit false

/-!
# What payload reads take

The reads of each wire type take the spellings of its payloads and nothing else. What they give is
what the payload says.
-/

namespace Protowire

variable {α : Type}

/-- The bytes of the language behind their length. -/
abbrev Framed (P : Bytes → α → Prop) (bytes : Bytes) (a : α) : Prop :=
  ∃ content, Varint.Delimits bytes content ∧ P content a

/-- What is made of values behind their length is made behind the length. -/
theorem mapped_framed_iff {β : Type} {P : Bytes → α → Prop} {f : α → β} {bytes : Bytes} {b : β} :
    Mapped (Framed P) f bytes b ↔ Framed (Mapped P f) bytes b := by
  constructor
  · rintro ⟨a, ⟨content, framed, told⟩, rfl⟩
    exact ⟨content, framed, a, told, rfl⟩
  · rintro ⟨content, framed, a, told, rfl⟩
    exact ⟨a, ⟨content, framed, told⟩, rfl⟩

namespace Read

/-- A group that says that there are more puts them above its own seven bits. -/
theorem ofNat_value_cons (b : UInt8) (rest : Bytes) :
    UInt64.ofNat (Varint.value (b :: rest)) =
      b.toUInt64 % 128 + 128 * UInt64.ofNat (Varint.value rest) := by
  rw [Varint.value, UInt64.ofNat_add, UInt64.ofNat_mul]
  congr 1
  apply UInt64.toNat_inj.1
  simp
  omega

theorem recognizes_groups (n : Nat) :
    (groups n).Recognizes fun bytes v =>
      Varint.Complete n bytes ∧ v = UInt64.ofNat (Varint.value bytes) := by
  induction n with
  | zero =>
    refine (Recognizes.fail .varint).congr fun bytes v => ?_
    simp [Varint.not_complete_zero]
  | succ n ih =>
    have next : ∀ b, (if b < 128 then pure b.toUInt64 else do
        let high ← groups n
        return b.toUInt64 % 128 + 128 * high : Read UInt64).Recognizes fun rest v =>
          Varint.Complete (n + 1) (b :: rest) ∧ v = UInt64.ofNat (Varint.value (b :: rest)) := by
      intro b
      by_cases low : b < 128
      · have whole : b.toUInt64 = UInt64.ofNat (Varint.value [b]) := by
          rw [UInt8.lt_iff_toNat_lt] at low
          apply UInt64.toNat_inj.1
          simp [Varint.value] at low ⊢
          omega
        have single : ∀ rest, Varint.Complete (n + 1) (b :: rest) ↔ rest = [] := by
          intro rest
          simp [Varint.complete_cons, low, UInt8.not_le.2 low]
        rw [if_pos low]
        refine (Recognizes.pure _).congr fun rest v => ?_
        rw [single]
        constructor
        · rintro ⟨rfl, rfl⟩
          exact ⟨rfl, whole⟩
        · rintro ⟨rfl, rfl⟩
          exact ⟨rfl, whole.symm⟩
      · have more : ∀ rest, Varint.Complete (n + 1) (b :: rest) ↔ Varint.Complete n rest := by
          intro rest
          simp [Varint.complete_cons, low, UInt8.not_lt.1 low]
        rw [if_neg low]
        refine (ih.bind_pure _).congr fun rest v => ?_
        rw [more, ofNat_value_cons]
        constructor
        · rintro ⟨high, ⟨complete, rfl⟩, rfl⟩
          exact ⟨complete, rfl⟩
        · rintro ⟨complete, rfl⟩
          exact ⟨_, ⟨complete, rfl⟩, rfl⟩
    refine (Recognizes.byte.bind next).congr fun bytes v => ?_
    constructor
    · rintro ⟨first, rest, b, rfl, rfl, spelled⟩
      exact spelled
    · rintro ⟨complete, rfl⟩
      cases bytes with
      | nil => exact (Varint.not_complete_nil _ complete).elim
      | cons b rest => exact ⟨[b], rest, b, rfl, rfl, complete, rfl⟩

theorem recognizes_varint : varint.Recognizes Varint.Spells := recognizes_groups 10

theorem recognizes_fixed32 :
    fixed32.Recognizes fun bytes bits => bytes = LittleEndian.encode 4 bits.toNat := by
  refine ((Recognizes.take 4).bind_pure _).congr fun bytes bits => ?_
  constructor
  · rintro ⟨_, ⟨length, rfl⟩, rfl⟩
    exact (LittleEndian.encode_word32 length).symm
  · rintro rfl
    refine ⟨_, ⟨LittleEndian.length_encode 4 _, rfl⟩, ?_⟩
    change UInt32.ofNat _ = bits
    rw [LittleEndian.decode_encode bits.toNat_lt, UInt32.ofNat_toNat]

theorem recognizes_fixed64 :
    fixed64.Recognizes fun bytes bits => bytes = LittleEndian.encode 8 bits.toNat := by
  refine ((Recognizes.take 8).bind_pure _).congr fun bytes bits => ?_
  constructor
  · rintro ⟨_, ⟨length, rfl⟩, rfl⟩
    exact (LittleEndian.encode_word64 length).symm
  · rintro rfl
    refine ⟨_, ⟨LittleEndian.length_encode 8 _, rfl⟩, ?_⟩
    change UInt64.ofNat _ = bits
    rw [LittleEndian.decode_encode bits.toNat_lt, UInt64.ofNat_toNat]

/-- What is read inside decides which contents may stand behind a length. -/
theorem recognizes_delimited {inner : Cursor → Logged α} {P : Bytes → α → Prop}
    (h : ∀ c a, (inner c).result = .ok a ↔ P c.unread a) :
    (delimited inner).Recognizes (Framed P) := by
  refine (recognizes_varint.bind fun n => Recognizes.window n.toNat h).congr fun bytes a => ?_
  constructor
  · rintro ⟨head, content, n, rfl, spelled, length, hp⟩
    exact ⟨content, ⟨head, n, rfl, spelled, length.symm⟩, hp⟩
  · rintro ⟨content, ⟨head, n, rfl, spelled, length⟩, hp⟩
    exact ⟨head, content, n, rfl, spelled, length.symm, hp⟩

/-- The window begins behind the length. -/
theorem answersAt_delimited {inner : Cursor → Logged α} {offset : Nat} {content : Bytes}
    {result : Except Error α} (small : content.length < 2 ^ 64)
    (h : (inner ⟨offset + (Varint.encode (UInt64.ofNat content.length)).length,
      content⟩).result = result) :
    (delimited inner).AnswersAt offset (Varint.delimit content) result := by
  have head := recognizes_varint.takes (Varint.spells_encode (UInt64.ofNat content.length))
  refine head.bind_answersAt ?_
  rw [UInt64.toNat_ofNat', Nat.mod_eq_of_lt small]
  exact answersAt_window h

theorem answers_delimited {inner : Cursor → Logged α} {content : Bytes}
    {result : Except Error α} (small : content.length < 2 ^ 64)
    (h : ∀ offset, (inner ⟨offset, content⟩).result = result) :
    (delimited inner).Answers (Varint.delimit content) result :=
  fun _ => answersAt_delimited small (h _)

theorem recognizes_bytes : bytes.Recognizes Varint.Delimits := by
  have all : ∀ (c : Cursor) (b : Bytes), (Logged.pure c.unread).result = .ok b ↔ c.unread = b :=
    fun c b => by simp [Logged.pure]
  refine (recognizes_delimited all).congr fun bytes b => ?_
  constructor
  · rintro ⟨content, framed, rfl⟩
    exact framed
  · exact fun framed => ⟨b, framed, rfl⟩

theorem recognizes_string :
    string.Recognizes fun bytes s => Varint.Delimits bytes (Utf8.encode s) := by
  refine (recognizes_bytes.bind_ofExcept _).congr fun bytes s => ?_
  simp only [Result.mapError_eq_ok_iff, Utf8.decode_eq_ok_iff]
  constructor
  · rintro ⟨content, framed, rfl⟩
    exact framed
  · exact fun framed => ⟨_, framed, rfl⟩

end Read

namespace ScalarType

/-- The bytes are one scalar of the type, in any spelling. -/
def Spells (t : ScalarType) (bytes : Bytes) (s : Scalar) : Prop :=
  ∃ p : Payload, p.Spells bytes ∧ t.interpret? p = some s

variable {t : ScalarType}

/-- `wrap` gives the payloads that the type takes, in terms of what is read for them. -/
theorem recognizes_of_payload {β : Type} {x : Read β} (wrap : β → Payload) (f : β → Scalar)
    (hx : x.Recognizes fun bytes a => Payload.Spells bytes (wrap a))
    (meaning : ∀ a, t.interpret? (wrap a) = some (f a))
    (wraps : ∀ p s, t.interpret? p = some s → ∃ a, p = wrap a) :
    (do return f (← x) : Read Scalar).Recognizes t.Spells := by
  refine (hx.bind_pure f).congr fun bytes s => ?_
  constructor
  · rintro ⟨a, spelled, rfl⟩
    exact ⟨wrap a, spelled, meaning a⟩
  · rintro ⟨p, spelled, h⟩
    obtain ⟨a, rfl⟩ := wraps p s h
    exact ⟨a, spelled, Option.some.inj ((meaning a).symm.trans h)⟩

/-- A value is what its payload means when it is read as the declared type. -/
theorem recognizes_read (t : ScalarType) : t.read.Recognizes t.Spells := by
  have varint := Read.recognizes_varint
  have fixed32 := Read.recognizes_fixed32
  have fixed64 := Read.recognizes_fixed64
  cases t
  case string =>
    refine recognizes_of_payload (fun s => .delimited (Utf8.encode s)) .string
      Read.recognizes_string ?_ ?_
    · intro s
      rw [interpret?, Utf8.decode_eq_ok_iff.2 rfl]
      rfl
    · intro p s h
      cases p with
      | delimited content =>
        obtain ⟨text, decoded, -⟩ := Option.map_eq_some_iff.1 h
        cases hd : Utf8.decode content with
        | error e => simp [hd, Except.toOption] at decoded
        | ok text => exact ⟨text, congrArg Payload.delimited (Utf8.decode_eq_ok_iff.1 hd)⟩
      | _ => cases h
  case bytes =>
    refine recognizes_of_payload .delimited .bytes Read.recognizes_bytes (fun _ => rfl) ?_
    intro p s h
    cases p <;> first | exact ⟨_, rfl⟩ | cases h
  case fixed32 | sfixed32 | float =>
    refine recognizes_of_payload .fixed32 _ fixed32 (fun _ => rfl) ?_
    intro p s h
    cases p <;> first | exact ⟨_, rfl⟩ | cases h
  case fixed64 | sfixed64 | double =>
    refine recognizes_of_payload .fixed64 _ fixed64 (fun _ => rfl) ?_
    intro p s h
    cases p <;> first | exact ⟨_, rfl⟩ | cases h
  all_goals
    refine recognizes_of_payload .varint _ varint (fun _ => rfl) ?_
    intro p s h
    cases p <;> first | exact ⟨_, rfl⟩ | cases h

end ScalarType

namespace WireType

variable {w : WireType}

theorem recognizes_discard {β : Type} {x : Read β} {P : Bytes → β → Prop} (hx : x.Recognizes P)
    (payloads : ∀ bytes, (∃ a, P bytes a) ↔ ∃ p : Payload, p.wireType = w ∧ p.Spells bytes) :
    (do
      let start ← Read.offset
      discard x
      return (← Read.offset) - start).Recognizes fun bytes n =>
        n = bytes.length ∧ ∃ p : Payload, p.wireType = w ∧ p.Spells bytes := by
  refine (hx.map fun _ => ()).count.congr fun bytes n => and_congr_right fun _ => ?_
  rw [← payloads]
  constructor
  · rintro ⟨_, a, spelled, -⟩
    exact ⟨a, spelled⟩
  · rintro ⟨a, spelled⟩
    exact ⟨(), a, spelled, rfl⟩

/-- Skipping takes whole payloads of the wire type, whatever they mean. -/
theorem recognizes_skip (w : WireType) :
    w.skip.Recognizes fun bytes n =>
      n = bytes.length ∧ ∃ p : Payload, p.wireType = w ∧ p.Spells bytes := by
  cases w with
  | varint =>
    refine recognizes_discard Read.recognizes_varint fun bytes => ?_
    constructor
    · rintro ⟨raw, spelled⟩
      exact ⟨.varint raw, rfl, spelled⟩
    · rintro ⟨p, wire, spelled⟩
      cases p <;> cases wire
      exact ⟨_, spelled⟩
  | fixed64 =>
    refine recognizes_discard (Read.Recognizes.take 8) fun bytes => ?_
    constructor
    · rintro ⟨_, length, -⟩
      exact ⟨.fixed64 _, rfl, (LittleEndian.encode_word64 length).symm⟩
    · rintro ⟨p, wire, spelled⟩
      cases p <;> cases wire
      obtain rfl := spelled
      exact ⟨_, LittleEndian.length_encode 8 _, rfl⟩
  | delimited =>
    refine recognizes_discard Read.recognizes_bytes fun bytes => ?_
    constructor
    · rintro ⟨content, spelled⟩
      exact ⟨.delimited content, rfl, spelled⟩
    · rintro ⟨p, wire, spelled⟩
      cases p <;> cases wire
      exact ⟨_, spelled⟩
  | fixed32 =>
    refine recognizes_discard (Read.Recognizes.take 4) fun bytes => ?_
    constructor
    · rintro ⟨_, length, -⟩
      exact ⟨.fixed32 _, rfl, (LittleEndian.encode_word32 length).symm⟩
    · rintro ⟨p, wire, spelled⟩
      cases p <;> cases wire
      obtain rfl := spelled
      exact ⟨_, LittleEndian.length_encode 4 _, rfl⟩

end WireType

end Protowire
