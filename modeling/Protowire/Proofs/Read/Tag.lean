import Protowire.Proofs.Read.Scalar
import Protowire.Read.Tag

set_option autoImplicit false

/-!
# What tag reads take

A tag is the varint of a number that says a field number above a wire type. Under the strict policy
nothing else is taken in its place.
-/

namespace Protowire

theorem WireType.ofCode?_eq_some_iff {code : UInt8} {w : WireType} :
    ofCode? code = some w ↔ code = w.code := by
  constructor
  · intro h
    unfold ofCode? at h
    split at h <;> cases h <;> rfl
  · rintro rfl
    exact ofCode?_code w

theorem FieldNumber.ofUInt32?_eq_some_iff {n : UInt32} {number : FieldNumber} :
    ofUInt32? n = some number ↔ n = number.val := by
  constructor
  · intro h
    unfold ofUInt32? at h
    split at h
    · cases h
      rfl
    · cases h
  · rintro rfl
    exact dif_pos number.inRange

namespace Tag

/-- The number that the varint of the tag stands for. -/
def code (t : Tag) : Nat := 8 * t.number.val.toNat + t.wireType.code.toNat

/-- `bytes` is a varint that holds the tag. -/
def Spells (bytes : Bytes) (t : Tag) : Prop := ∃ v, Varint.Spells bytes v ∧ v.toNat = t.code

theorem wireType_code_lt (w : WireType) : w.code.toNat < 2 ^ 3 := by
  cases w <;> decide

theorem toNat_raw (t : Tag) : t.raw.toNat = t.code := by
  have number := t.number.toNat_lt
  have apart := Nat.two_pow_add_eq_or_of_lt (wireType_code_lt t.wireType) t.number.val.toNat
  have above : t.number.val.toNat <<< 3 % 2 ^ 32 = 2 ^ 3 * t.number.val.toNat := by
    rw [Nat.shiftLeft_eq]
    omega
  rw [raw, code, UInt32.toNat_or, UInt32.toNat_shiftLeft, UInt8.toNat_toUInt32]
  change t.number.val.toNat <<< 3 % 2 ^ 32 ||| _ = _
  rw [above, ← apart]

/-- The two parts of a number that says a tag. -/
theorem toNat_eq_code_iff {raw : UInt64} {t : Tag} :
    raw.toNat = t.code ↔
      (raw &&& 7).toUInt8 = t.wireType.code ∧ (raw >>> 3).toNat = t.number.val.toNat := by
  have low : (raw &&& 7).toUInt8.toNat = raw.toNat % 8 := by
    have masked : raw.toNat &&& 7 = raw.toNat % 8 := Nat.and_two_pow_sub_one_eq_mod raw.toNat 3
    rw [UInt64.toNat_toUInt8, UInt64.toNat_and]
    change (raw.toNat &&& 7) % 256 = _
    omega
  have high : (raw >>> 3).toNat = raw.toNat / 8 := by
    rw [UInt64.toNat_shiftRight]
    exact Nat.shiftRight_eq_div_pow raw.toNat 3
  have bound := wireType_code_lt t.wireType
  rw [← UInt8.toNat_inj, low, high, code]
  omega

theorem ofRaw?_eq_some_iff {raw : UInt64} {t : Tag} :
    ofRaw? raw = some t ↔ raw.toNat = t.code := by
  rw [toNat_eq_code_iff]
  simp only [ofRaw?, Option.bind_eq_bind, Option.bind_eq_some_iff, WireType.ofCode?_eq_some_iff]
  constructor
  · rintro ⟨w, code, found⟩
    split at found
    · next bound =>
      simp only [Option.bind_eq_some_iff, FieldNumber.ofUInt32?_eq_some_iff] at found
      obtain ⟨number, value, made⟩ := found
      cases made
      refine ⟨code, ?_⟩
      rw [← value, UInt64.toNat_toUInt32]
      rw [UInt64.le_iff_toNat_le] at bound
      exact (Nat.mod_eq_of_lt (Nat.lt_of_le_of_lt bound (by decide))).symm
    · cases found
  · rintro ⟨code, value⟩
    refine ⟨t.wireType, code, ?_⟩
    have bound := t.number.toNat_lt
    have fits : raw >>> 3 ≤ 127 := by
      rw [UInt64.le_iff_toNat_le, value]
      exact Nat.le_of_lt_succ bound
    have narrowed : (raw >>> 3).toUInt32 = t.number.val := by
      apply UInt32.toNat_inj.1
      rw [UInt64.toNat_toUInt32, value, Nat.mod_eq_of_lt t.number.val.toNat_lt]
    rw [if_pos fits, narrowed, FieldNumber.ofUInt32?_eq_some_iff.2 rfl]
    rfl

theorem spells_encode (t : Tag) : Spells t.encode t :=
  ⟨_, Varint.spells_encode _, by rw [UInt32.toNat_toUInt64, toNat_raw]⟩

theorem recognizes_read : read.Recognizes Spells := by
  refine Read.Recognizes.offset_bind fun start => ?_
  refine ((Read.recognizes_varint.mapError _).bind_ofExcept _).congr fun bytes t => ?_
  refine exists_congr fun v => and_congr_right fun _ => ?_
  rw [← ofRaw?_eq_some_iff]
  unfold ofRaw
  cases ofRaw? v <;> simp

theorem next_reject : next .reject = some <$> read := by
  refine Read.ext (funext fun c => ?_)
  change (Read.recover _ _).run c = _
  unfold Read.recover
  cases hr : ((some <$> read).run c).result with
  | ok t => simp only [hr]
  | error e => cases e <;> simp only [hr]

/-- What follows a tag is read in sight of the tag. -/
theorem recognizes_next_bind {β : Type} {f : Option Tag → Read β}
    {R : Tag → Bytes → β → Prop} (h : ∀ t, (f (some t)).Recognizes (R t)) :
    (next .reject >>= f).Recognizes fun bytes b =>
      ∃ head payload t, bytes = head ++ payload ∧ Spells head t ∧ R t payload b := by
  rw [next_reject, bind_map_left]
  exact recognizes_read.bind h

/-- Any spelling of a tag is taken, under either policy. -/
theorem takes_next (policy : MalformedTagPolicy) {head : Bytes} {t : Tag}
    (spelled : Spells head t) : (next policy).Takes head (some t) :=
  Read.Takes.recover ((recognizes_read.takes spelled).map some) _

end Tag

end Protowire
