import Protowire.Payload
import Protowire.Proofs.Varint
import Protowire.Proofs.Zigzag

set_option autoImplicit false

/-!
# What payloads say

`interpret?` reads a payload as a scalar of a type and undoes `payload?`. `Payload.Spells` says
which byte strings hold the payload.
-/

namespace Protowire

theorem Utf8.decode_eq_ok_iff {bytes : Bytes} {s : String} :
    decode bytes = .ok s ↔ bytes = encode s := by
  constructor
  · intro h
    unfold decode String.fromUTF8? at h
    split at h
    · next t found =>
      obtain rfl : t = s := by simpa using h
      split at found
      · cases found
        simp [encode, String.fromUTF8]
      · cases found
    · cases h
  · rintro rfl
    have whole : (⟨(encode s).toArray⟩ : ByteArray) = s.toByteArray := by simp [encode]
    simp only [decode, String.fromUTF8?, whole]
    rw [dif_pos s.isValidUTF8]
    rfl

namespace LittleEndian

theorem decode_encode {width n : Nat} (h : n < 256 ^ width) : decode (encode width n) = n := by
  induction width generalizing n with
  | zero =>
    simp at h
    simp [encode, decode, h]
  | succ width ih =>
    have high : n / 256 < 256 ^ width := by
      rwa [Nat.div_lt_iff_lt_mul (by decide), ← Nat.pow_succ]
    simp [encode, decode, ih high, Nat.mod_add_div]

theorem encode_decode (bytes : Bytes) : encode bytes.length (decode bytes) = bytes := by
  induction bytes with
  | nil => rfl
  | cons b rest ih =>
    have byte := b.toNat_lt
    have low : UInt8.ofNat (b.toNat + 256 * decode rest) = b := by
      apply UInt8.toNat_inj.1
      simp
    have high : (b.toNat + 256 * decode rest) / 256 = decode rest := by omega
    rw [List.length_cons, encode, decode, low, high, ih]

theorem decode_lt (bytes : Bytes) : decode bytes < 256 ^ bytes.length := by
  induction bytes with
  | nil => simp [decode]
  | cons b rest ih =>
    have byte := b.toNat_lt
    rw [decode, List.length_cons, Nat.pow_succ]
    omega

/-- Four bytes are always a word. -/
theorem encode_word32 {bytes : Bytes} (length : bytes.length = 4) :
    encode 4 (UInt32.ofNat (decode bytes)).toNat = bytes := by
  have bound := decode_lt bytes
  have back := encode_decode bytes
  rw [length] at bound back
  have small : decode bytes < 2 ^ 32 := Nat.lt_of_lt_of_le bound (by decide)
  rw [UInt32.toNat_ofNat', Nat.mod_eq_of_lt small, back]

theorem encode_word64 {bytes : Bytes} (length : bytes.length = 8) :
    encode 8 (UInt64.ofNat (decode bytes)).toNat = bytes := by
  have bound := decode_lt bytes
  have back := encode_decode bytes
  rw [length] at bound back
  have small : decode bytes < 2 ^ 64 := Nat.lt_of_lt_of_le bound (by decide)
  rw [UInt64.toNat_ofNat', Nat.mod_eq_of_lt small, back]

end LittleEndian

/-- `bytes` holds the payload, behind its length if the wire type has one. -/
def Payload.Spells (bytes : Bytes) : Payload → Prop
  | varint raw => Varint.Spells bytes raw
  | fixed32 bits => bytes = LittleEndian.encode 4 bits.toNat
  | fixed64 bits => bytes = LittleEndian.encode 8 bits.toNat
  | delimited content => Varint.Delimits bytes content

namespace Payload

/-- The length in front of the content must be one that a length can be. -/
theorem spells_encode_of_content {p : Payload}
    (small : ∀ content, p = delimited content → content.length < 2 ^ 64) : p.Spells p.encode := by
  cases p with
  | varint raw => exact Varint.spells_encode raw
  | fixed32 bits => rfl
  | fixed64 bits => rfl
  | delimited content => exact Varint.delimits_delimit (small content rfl)

theorem spells_encode {p : Payload} (small : p.encode.length < 2 ^ 64) : p.Spells p.encode := by
  apply spells_encode_of_content
  rintro content rfl
  refine Nat.lt_of_le_of_lt ?_ small
  simp [encode, Varint.delimitedSize]

theorem isZero_varint (raw : UInt64) : (varint raw).isZero = true ↔ raw = 0 := by
  rw [isZero, List.isEmpty_iff, Varint.encodeField_eq_nil_iff]

end Payload

namespace ScalarType

/-- What the payload says when it is read as the type, if the type takes it. -/
def interpret? : ScalarType → Payload → Option Scalar
  | int32, .varint raw | enum, .varint raw => some (.i32 raw.toUInt32.toInt32)
  | int64, .varint raw => some (.i64 raw.toInt64)
  | uint32, .varint raw => some (.u32 raw.toUInt32)
  | uint64, .varint raw => some (.u64 raw)
  | sint32, .varint raw => some (.i32 (Zigzag.decode32 raw.toUInt32))
  | sint64, .varint raw => some (.i64 (Zigzag.decode64 raw))
  | bool, .varint raw => some (.bool (raw != 0))
  | fixed32, .fixed32 bits => some (.u32 bits)
  | sfixed32, .fixed32 bits => some (.i32 bits.toInt32)
  | float, .fixed32 bits => some (.f32 bits)
  | fixed64, .fixed64 bits => some (.u64 bits)
  | sfixed64, .fixed64 bits => some (.i64 bits.toInt64)
  | double, .fixed64 bits => some (.f64 bits)
  | string, .delimited content => (Utf8.decode content).toOption.map .string
  | bytes, .delimited content => some (.bytes content)
  | _, _ => none

/-- Sign extension keeps the low half. -/
theorem toInt32_toUInt64_toInt64 (v : Int32) : v.toInt64.toUInt64.toUInt32.toInt32 = v := by
  apply Int32.toBitVec_inj.1
  apply BitVec.eq_of_getElem_eq
  intro i hi
  simp
  grind

theorem variant_of_interpret? {t : ScalarType} {s : Scalar} {p : Payload}
    (h : t.interpret? p = some s) : s.variant = t.variant := by
  cases t
  case string =>
    cases p with
    | delimited content =>
      obtain ⟨text, -, rfl⟩ := Option.map_eq_some_iff.1 h
      rfl
    | _ => cases h
  all_goals
    cases p <;> cases h
    rfl

theorem interpret?_of_payload? {t : ScalarType} {s : Scalar} {p : Payload}
    (h : t.payload? s = some p) : t.interpret? p = some s := by
  revert h
  cases t <;> cases s <;> simp [payload?] <;> rintro rfl <;>
    simp [interpret?, toInt32_toUInt64_toInt64]
  case bool.bool b => cases b <;> rfl
  case string.string s =>
    rw [Utf8.decode_eq_ok_iff.2 rfl]
    rfl

/-- Nothing but zeros says the default, whatever the type. -/
theorem interpret?_of_isZero {t : ScalarType} {p : Payload} (zero : p.isZero = true)
    (wire : p.wireType = t.wireType) : t.interpret? p = some t.default := by
  cases p with
  | varint raw =>
    obtain rfl := (Payload.isZero_varint raw).1 zero
    cases t <;> first | rfl | cases wire
  | fixed32 bits =>
    obtain rfl : bits = 0 := by simpa [Payload.isZero] using zero
    cases t <;> first | rfl | cases wire
  | fixed64 bits =>
    obtain rfl : bits = 0 := by simpa [Payload.isZero] using zero
    cases t <;> first | rfl | cases wire
  | delimited content =>
    obtain rfl : content = [] := by simpa [Payload.isZero] using zero
    cases t
    case string =>
      have empty : Utf8.decode [] = .ok "" := Utf8.decode_eq_ok_iff.2 rfl
      rw [interpret?, empty]
      rfl
    case bytes => rfl
    all_goals cases wire

theorem isZero_payload? {t : ScalarType} {s : Scalar} {p : Payload}
    (h : t.payload? s = some p) : p.isZero = true ↔ s = t.default := by
  constructor
  · intro zero
    have said := interpret?_of_isZero zero (wireType_of_payload? h)
    rw [interpret?_of_payload? h] at said
    exact Option.some.inj said
  · rintro rfl
    cases t <;> simp [payload?, default] at h <;> subst h <;> rfl

end ScalarType

end Protowire
