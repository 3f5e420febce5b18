import Protowire.Zigzag

set_option autoImplicit false

/-!
# Zigzag and back

The sign goes into the lowest bit and complements the bits above it, so decoding, which looks at
the lowest bit to decide on a complement, finds all of them again.
-/

namespace Protowire.Zigzag

variable {w : Nat}

/-- Shifted all the way down, a word is nothing but copies of its sign. -/
theorem sshiftRight_pred (x : BitVec w) : x.sshiftRight (w - 1) = BitVec.fill w x.msb := by
  apply BitVec.eq_of_getElem_eq
  intro i hi
  rw [BitVec.getElem_sshiftRight, BitVec.getElem_fill]
  split
  · next inside =>
    obtain rfl : i = 0 := by omega
    rw [BitVec.msb_eq_getLsbD_last, ← BitVec.getLsbD_eq_getElem]
    rfl
  · rfl

theorem fold_of_nonneg {x : BitVec w} (sign : x.msb = false) :
    x <<< 1 ^^^ x.sshiftRight (w - 1) = x <<< 1 := by
  rw [sshiftRight_pred, sign]
  simp [BitVec.fill]

theorem fold_of_neg {x : BitVec w} (sign : x.msb = true) :
    x <<< 1 ^^^ x.sshiftRight (w - 1) = ~~~(x <<< 1) := by
  rw [sshiftRight_pred, sign]
  simp [BitVec.fill, BitVec.neg_one_eq_allOnes]

theorem unfold_fold (x : BitVec w) :
    let n := x <<< 1 ^^^ x.sshiftRight (w - 1)
    n >>> 1 ^^^ -(n &&& 1#w) = x := by
  have last : ∀ i (hi : i < w), ¬ 1 + i < w → x.msb = x[i] := by
    intro i hi h
    obtain rfl : i = w - 1 := by omega
    rw [BitVec.msb_eq_getLsbD_last, BitVec.getLsbD_eq_getElem]
  cases sign : x.msb with
  | false =>
    have low : x <<< 1 &&& 1#w = 0#w := by
      apply BitVec.eq_of_getElem_eq
      intro i hi
      simp
      omega
    simp only [fold_of_nonneg sign, low]
    apply BitVec.eq_of_getElem_eq
    intro i hi
    by_cases inside : 1 + i < w
    · simp [inside]
    · simp [inside, ← last i hi inside, sign]
  | true =>
    have low : ~~~(x <<< 1) &&& 1#w = 1#w := by
      apply BitVec.eq_of_getElem_eq
      intro i hi
      simp
      omega
    simp only [fold_of_neg sign, low, BitVec.neg_one_eq_allOnes]
    apply BitVec.eq_of_getElem_eq
    intro i hi
    by_cases inside : 1 + i < w
    · simp [inside]
    · simp [inside, ← last i hi inside, sign]

@[simp] theorem decode32_encode32 (v : Int32) : decode32 (encode32 v) = v :=
  Int32.toBitVec_inj.1 (by simpa [decode32, encode32] using unfold_fold v.toBitVec)

@[simp] theorem decode64_encode64 (v : Int64) : decode64 (encode64 v) = v :=
  Int64.toBitVec_inj.1 (by simpa [decode64, encode64] using unfold_fold v.toBitVec)

/-- The code of a number, whatever the width of the word that holds it. -/
theorem toNat_fold (x : BitVec w) :
    ((x <<< 1 ^^^ x.sshiftRight (w - 1)).toNat : Int) =
      if 0 ≤ x.toInt then 2 * x.toInt else -2 * x.toInt - 1 := by
  have bound := x.isLt
  have doubled : (x <<< 1).toNat = 2 * x.toNat % 2 ^ w := by
    rw [BitVec.toNat_shiftLeft, Nat.shiftLeft_eq, Nat.pow_one, Nat.mul_comm]
  have value := BitVec.toInt_eq_msb_cond x
  cases sign : x.msb with
  | false =>
    have small := BitVec.msb_eq_false_iff_two_mul_lt.1 sign
    rw [sign, if_neg nofun] at value
    rw [fold_of_nonneg sign, doubled, Nat.mod_eq_of_lt small, value]
    omega
  | true =>
    have large := BitVec.msb_eq_true_iff_two_mul_ge.1 sign
    have wrapped : 2 * x.toNat % 2 ^ w = 2 * x.toNat - 2 ^ w := by
      rw [Nat.mod_eq_sub_mod large, Nat.mod_eq_of_lt (by omega)]
    rw [sign, if_pos rfl] at value
    rw [fold_of_neg sign, BitVec.toNat_not, doubled, wrapped, value]
    omega

theorem toNat_encode32 (v : Int32) :
    ((encode32 v).toNat : Int) = if 0 ≤ v.toInt then 2 * v.toInt else -2 * v.toInt - 1 := by
  have bits : (encode32 v).toBitVec = v.toBitVec <<< 1 ^^^ v.toBitVec.sshiftRight 31 := by
    simp [encode32]
  rw [← UInt32.toNat_toBitVec, bits]
  exact toNat_fold v.toBitVec

theorem toNat_encode64 (v : Int64) :
    ((encode64 v).toNat : Int) = if 0 ≤ v.toInt then 2 * v.toInt else -2 * v.toInt - 1 := by
  have bits : (encode64 v).toBitVec = v.toBitVec <<< 1 ^^^ v.toBitVec.sshiftRight 63 := by
    simp [encode64]
  rw [← UInt64.toNat_toBitVec, bits]
  exact toNat_fold v.toBitVec

/-- The code does not depend on the width. -/
theorem toUInt64_encode32 (v : Int32) : (encode32 v).toUInt64 = encode64 v.toInt64 := by
  apply UInt64.toNat_inj.1
  have narrow := toNat_encode32 v
  have wide := toNat_encode64 v.toInt64
  rw [Int32.toInt_toInt64] at wide
  rw [UInt32.toNat_toUInt64]
  exact Int.ofNat_inj.1 (narrow.trans wide.symm)

theorem toUInt32_encode64 {v : Int64} {small : Int32} (fits : small.toInt64 = v) :
    (encode64 v).toUInt32 = encode32 small := by
  rw [← fits, ← toUInt64_encode32, UInt32.toUInt32_toUInt64]

end Protowire.Zigzag
