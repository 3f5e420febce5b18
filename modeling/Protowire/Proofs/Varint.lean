import Mathlib.Algebra.Group.Nat.Defs
import Mathlib.Tactic.SplitIfs
import Protowire.Varint

set_option autoImplicit false

/-!
# Spellings of varints

A number has many spellings as a varint, since high groups may be zero. `Spells` says which byte
strings stand for which word, and `encode` gives one of them, of the length that `size` foretells.
-/

namespace Protowire.Varint

/-- The number of groups is the number of base-128 digits, or one for zero. -/
theorem length_groups {more n k : Nat} (fits : k ≤ more) (lower : k = 0 ∨ 128 ^ k ≤ n)
    (upper : n < 128 ^ (k + 1)) : (groups more n).length = k + 1 := by
  induction more generalizing n k with
  | zero =>
    obtain rfl : k = 0 := by omega
    rfl
  | succ more ih =>
    cases k with
    | zero =>
      have small : n < 128 := by simpa using upper
      simp [groups, small]
    | succ k =>
      have large : 128 ^ (k + 1) ≤ n := by simpa using lower
      have notSmall : ¬ n < 128 := by
        have := Nat.one_le_pow k 128 (by decide)
        rw [Nat.pow_succ] at large
        omega
      simp only [groups, notSmall, if_false, List.length_cons]
      rw [ih (k := k) (by omega) (.inr ?_) ?_]
      · rwa [Nat.le_div_iff_mul_le (by decide), ← Nat.pow_succ]
      · rwa [Nat.div_lt_iff_lt_mul (by decide), ← Nat.pow_succ]

@[simp] theorem length_encode (v : UInt64) : (encode v).length = size v := by
  have bound := v.toNat_lt
  simp only [size, UInt64.le_iff_toNat_le, UInt64.reduceToNat]
  split_ifs
  · exact length_groups (k := 0) (by decide) (by omega) (by omega)
  · exact length_groups (k := 1) (by decide) (by omega) (by omega)
  · exact length_groups (k := 2) (by decide) (by omega) (by omega)
  · exact length_groups (k := 3) (by decide) (by omega) (by omega)
  · exact length_groups (k := 4) (by decide) (by omega) (by omega)
  · exact length_groups (k := 5) (by decide) (by omega) (by omega)
  · exact length_groups (k := 6) (by decide) (by omega) (by omega)
  · exact length_groups (k := 7) (by decide) (by omega) (by omega)
  · exact length_groups (k := 8) (by decide) (by omega) (by omega)
  · exact length_groups (k := 9) (by decide) (by omega) (by omega)

theorem encode_ne_nil (v : UInt64) : encode v ≠ [] := by
  unfold encode groups
  split <;> simp

@[simp] theorem length_delimit (payload : Bytes) :
    (delimit payload).length = delimitedSize payload.length := by
  simp [delimit, delimitedSize]

/-- The number that the low seven bits of the bytes make up, low groups first. -/
def value : Bytes → Nat
  | [] => 0
  | b :: rest => b.toNat % 128 + 128 * value rest

/-- A whole varint of at most `most` bytes: all bytes but the last have their high bit set. -/
def Complete (most : Nat) (bytes : Bytes) : Prop :=
  ∃ init last, bytes = init ++ [last] ∧ bytes.length ≤ most ∧ (∀ b ∈ init, 128 ≤ b) ∧ last < 128

/-- `bytes` is a varint of at most ten bytes and stands for `v`. What does not fit in 64 bits is
lost. -/
def Spells (bytes : Bytes) (v : UInt64) : Prop :=
  Complete 10 bytes ∧ v = UInt64.ofNat (value bytes)

theorem not_complete_nil (most : Nat) : ¬ Complete most [] := by
  rintro ⟨init, last, h, -⟩
  simp at h

theorem not_complete_zero (bytes : Bytes) : ¬ Complete 0 bytes := by
  rintro ⟨init, last, rfl, h, -⟩
  simp at h

theorem complete_cons {most : Nat} {b : UInt8} {rest : Bytes} :
    Complete (most + 1) (b :: rest) ↔ b < 128 ∧ rest = [] ∨ 128 ≤ b ∧ Complete most rest := by
  constructor
  · rintro ⟨init, last, h, bound, high, low⟩
    cases init with
    | nil =>
      obtain ⟨rfl, rfl⟩ : b = last ∧ rest = [] := by simpa using h
      exact .inl ⟨low, rfl⟩
    | cons first init =>
      obtain ⟨rfl, rfl⟩ : b = first ∧ rest = init ++ [last] := by simpa using h
      refine .inr ⟨high b (by simp), init, last, rfl, by simpa using bound, ?_, low⟩
      exact fun x hx => high x (by simp [hx])
  · rintro (⟨low, rfl⟩ | ⟨high, init, last, rfl, bound, highs, low⟩)
    · exact ⟨[], b, rfl, by simp, by simp, low⟩
    · refine ⟨b :: init, last, rfl, by simpa using bound, ?_, low⟩
      rintro x (_ | ⟨_, hx⟩)
      · exact high
      · exact highs x hx

theorem complete_groups {more n : Nat} (h : n < 128 ^ (more + 1)) :
    Complete (more + 1) (groups more n) := by
  induction more generalizing n with
  | zero =>
    refine complete_cons.2 (.inl ⟨?_, rfl⟩)
    rw [UInt8.lt_iff_toNat_lt]
    simp at h ⊢
    omega
  | succ more ih =>
    unfold groups
    split
    · next small =>
      refine complete_cons.2 (.inl ⟨?_, rfl⟩)
      rw [UInt8.lt_iff_toNat_lt]
      simp
      omega
    · refine complete_cons.2 (.inr ⟨?_, ih ?_⟩)
      · rw [UInt8.le_iff_toNat_le]
        simp
        omega
      · rwa [Nat.div_lt_iff_lt_mul (by decide), ← Nat.pow_succ]

theorem value_groups {more n : Nat} (h : n < 128 ^ (more + 1)) : value (groups more n) = n := by
  induction more generalizing n with
  | zero =>
    simp [groups, value] at h ⊢
    omega
  | succ more ih =>
    unfold groups
    split
    · simp [value]
      omega
    · rw [value, ih]
      · simp
        omega
      · rwa [Nat.div_lt_iff_lt_mul (by decide), ← Nat.pow_succ]

theorem spells_encode (v : UInt64) : Spells (encode v) v := by
  have bound : v.toNat < 128 ^ 10 := Nat.lt_trans v.toNat_lt (by decide)
  exact ⟨complete_groups bound, by rw [encode, value_groups bound, UInt64.ofNat_toNat]⟩

theorem chain_eq_nil_iff {bytes : Bytes} : chain bytes = [] ↔ bytes = [] := by
  unfold chain
  split <;> simp

/-- In field form zero, and nothing else, takes no bytes. -/
theorem encodeField_eq_nil_iff {v : UInt64} : encodeField v = [] ↔ v = 0 := by
  rw [encodeField, chain_eq_nil_iff, digits, ← UInt64.toNat_inj]
  split <;> simp_all

/-- `bytes` is the length of `content`, in any spelling, and `content` behind it. -/
def Delimits (bytes content : Bytes) : Prop :=
  ∃ head length, bytes = head ++ content ∧ Spells head length ∧ length.toNat = content.length

theorem delimits_delimit {content : Bytes} (small : content.length < 2 ^ 64) :
    Delimits (delimit content) content := by
  refine ⟨_, _, rfl, spells_encode _, ?_⟩
  rw [UInt64.toNat_ofNat']
  exact Nat.mod_eq_of_lt small

end Protowire.Varint
