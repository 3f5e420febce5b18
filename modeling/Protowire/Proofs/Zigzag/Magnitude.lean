import Mathlib.Data.FinEnum
import Protowire.Proofs.Varint.Shortest
import Protowire.Proofs.Zigzag

set_option autoImplicit false

/-!
# Codes by magnitude

Every word is the code of exactly one number, and the codes of larger magnitudes are larger, so
that as varints they are no shorter.
-/

namespace Protowire.Zigzag

variable {w : Nat}

/-- No two words fold to the same one, and there are as many words before as after, so none is
missed. -/
theorem fold_unfold (n : BitVec w) :
    let x := n >>> 1 ^^^ -(n &&& 1#w)
    x <<< 1 ^^^ x.sshiftRight (w - 1) = n := by
  have inverse : Function.LeftInverse (fun n : BitVec w => n >>> 1 ^^^ -(n &&& 1#w))
      (fun x => x <<< 1 ^^^ x.sshiftRight (w - 1)) := unfold_fold
  have surjective := Finite.surjective_of_injective inverse.injective
  exact inverse.rightInverse_of_surjective surjective n

@[simp] theorem encode32_decode32 (n : UInt32) : encode32 (decode32 n) = n :=
  UInt32.toBitVec_inj.1 (by simpa [decode32, encode32] using fold_unfold n.toBitVec)

@[simp] theorem encode64_decode64 (n : UInt64) : encode64 (decode64 n) = n :=
  UInt64.toBitVec_inj.1 (by simpa [decode64, encode64] using fold_unfold n.toBitVec)

/-- A code is twice the magnitude, less one for the numbers below zero. -/
theorem code_bounds {a : Int} {code : Nat}
    (folded : (code : Int) = if 0 ≤ a then 2 * a else -2 * a - 1) :
    2 * a.natAbs ≤ code + 1 ∧ code ≤ 2 * a.natAbs := by
  split at folded <;> omega

theorem code_lt {a b : Int} {code code' : Nat}
    (folded : (code : Int) = if 0 ≤ a then 2 * a else -2 * a - 1)
    (folded' : (code' : Int) = if 0 ≤ b then 2 * b else -2 * b - 1)
    (smaller : a.natAbs < b.natAbs) : code < code' := by
  obtain ⟨-, upper⟩ := code_bounds folded
  obtain ⟨lower, -⟩ := code_bounds folded'
  -- The doubles are two apart, so one less on either side does not reverse them.
  omega

theorem encode32_lt {v w : Int32} (smaller : v.toInt.natAbs < w.toInt.natAbs) :
    encode32 v < encode32 w :=
  UInt32.lt_iff_toNat_lt.2 (code_lt (toNat_encode32 v) (toNat_encode32 w) smaller)

theorem encode64_lt {v w : Int64} (smaller : v.toInt.natAbs < w.toInt.natAbs) :
    encode64 v < encode64 w :=
  UInt64.lt_iff_toNat_lt.2 (code_lt (toNat_encode64 v) (toNat_encode64 w) smaller)

theorem length_encode64_le {v w : Int64} (smaller : v.toInt.natAbs < w.toInt.natAbs) :
    (Varint.encode (encode64 v)).length ≤ (Varint.encode (encode64 w)).length :=
  Varint.length_encode_mono (UInt64.le_of_lt (encode64_lt smaller))

theorem length_encode32_le {v w : Int32} (smaller : v.toInt.natAbs < w.toInt.natAbs) :
    (Varint.encode (encode32 v).toUInt64).length ≤
      (Varint.encode (encode32 w).toUInt64).length := by
  rw [toUInt64_encode32, toUInt64_encode32]
  apply length_encode64_le
  rwa [Int32.toInt_toInt64, Int32.toInt_toInt64]

/-- The codes count the numbers 0, -1, 1, -2, 2, … from zero, and the least number, whose double is
lost, still has its code. Coding and decoding undo each other. Of two magnitudes the smaller has the
smaller code, and a varint that is no longer. -/
theorem bijective_by_magnitude :
    (∀ v : Int32,
      ((encode32 v).toNat : Int) = if 0 ≤ v.toInt then 2 * v.toInt else -2 * v.toInt - 1) ∧
    (∀ v : Int64,
      ((encode64 v).toNat : Int) = if 0 ≤ v.toInt then 2 * v.toInt else -2 * v.toInt - 1) ∧
    (∀ v, decode32 (encode32 v) = v) ∧ (∀ v, decode64 (encode64 v) = v) ∧
    (∀ n, encode32 (decode32 n) = n) ∧ (∀ n, encode64 (decode64 n) = n) ∧
    (∀ v w : Int32, v.toInt.natAbs < w.toInt.natAbs →
      encode32 v < encode32 w ∧
      (Varint.encode (encode32 v).toUInt64).length ≤
        (Varint.encode (encode32 w).toUInt64).length) ∧
    ∀ v w : Int64, v.toInt.natAbs < w.toInt.natAbs →
      encode64 v < encode64 w ∧
      (Varint.encode (encode64 v)).length ≤ (Varint.encode (encode64 w)).length :=
  ⟨toNat_encode32, toNat_encode64, decode32_encode32, decode64_encode64, encode32_decode32,
    encode64_decode64, fun _ _ smaller => ⟨encode32_lt smaller, length_encode32_le smaller⟩,
    fun _ _ smaller => ⟨encode64_lt smaller, length_encode64_le smaller⟩⟩

/-- The least number alone has its magnitude and comes last, one code after the greatest. -/
theorem bijective_by_magnitude_least :
    (Int32.maxValue.toInt.natAbs < Int32.minValue.toInt.natAbs ∧
      encode32 Int32.maxValue < encode32 Int32.minValue ∧
      (Varint.encode (encode32 Int32.maxValue).toUInt64).length ≤
        (Varint.encode (encode32 Int32.minValue).toUInt64).length) ∧
    Int64.maxValue.toInt.natAbs < Int64.minValue.toInt.natAbs ∧
      encode64 Int64.maxValue < encode64 Int64.minValue ∧
      (Varint.encode (encode64 Int64.maxValue)).length ≤
        (Varint.encode (encode64 Int64.minValue)).length := by
  obtain ⟨-, -, -, -, -, -, ordered32, ordered64⟩ := bijective_by_magnitude
  have smaller32 : Int32.maxValue.toInt.natAbs < Int32.minValue.toInt.natAbs := by decide
  have smaller64 : Int64.maxValue.toInt.natAbs < Int64.minValue.toInt.natAbs := by decide
  exact ⟨⟨smaller32, ordered32 _ _ smaller32⟩, smaller64, ordered64 _ _ smaller64⟩

end Protowire.Zigzag
