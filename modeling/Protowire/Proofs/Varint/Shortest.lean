import Protowire.Proofs.Read.Scalar
import Protowire.Proofs.Reader
import Protowire.Writer

set_option autoImplicit false

/-!
# The shortest spelling

The two forms in which a number is written differ at zero only, and of all spellings of a number
the one that is written is the shortest.
-/

namespace Protowire.Varint

theorem chain_cons {b : UInt8} {rest : Bytes} (more : rest ≠ []) :
    chain (b :: rest) = (b + 128) :: chain rest := by
  obtain ⟨next, tail, rfl⟩ := List.exists_cons_of_ne_nil more
  rfl

theorem digits_ne_nil {most n : Nat} (positive : n ≠ 0) : digits (most + 1) n ≠ [] := by
  rw [digits, if_neg positive]
  exact List.cons_ne_nil _ _

/-- The digits of a number that is not zero are its groups, once all but the last ask for more. -/
theorem chain_digits {more n : Nat} (positive : n ≠ 0) (fits : n < 128 ^ (more + 1)) :
    chain (digits (more + 1) n) = groups more n := by
  induction more generalizing n with
  | zero =>
    have small : n % 128 = n := Nat.mod_eq_of_lt fits
    rw [digits, if_neg positive, digits, small]
    rfl
  | succ more ih =>
    rw [digits, if_neg positive, groups]
    by_cases small : n < 128
    · rw [if_pos small, Nat.div_eq_of_lt small, Nat.mod_eq_of_lt small, digits, if_pos rfl]
      rfl
    · have high : n / 128 ≠ 0 := Nat.div_ne_zero_iff.2 ⟨by decide, Nat.not_lt.1 small⟩
      have below : n / 128 < 128 ^ (more + 1) := by
        rwa [Nat.div_lt_iff_lt_mul (by decide), ← Nat.pow_succ]
      rw [if_neg small, chain_cons (digits_ne_nil high), ih high below, UInt8.ofNat_add]
      rfl

theorem encodeField_eq (v : UInt64) : encodeField v = if v = 0 then [] else encode v := by
  by_cases zero : v = 0
  · rw [if_pos zero]
    exact encodeField_eq_nil_iff.2 zero
  · have positive : v.toNat ≠ 0 := fun same => zero (UInt64.toNat_inj.1 same)
    rw [if_neg zero, encodeField, encode]
    exact chain_digits positive (Nat.lt_trans v.toNat_lt (by decide))

/-- A number below the `k + 1`st power of 128 has no more than `k + 1` groups. -/
theorem length_groups_le {more n k : Nat} (fits : n < 128 ^ (k + 1)) :
    (groups more n).length ≤ k + 1 := by
  induction more generalizing n k with
  | zero => exact Nat.succ_le_succ (Nat.zero_le k)
  | succ more ih =>
    rw [groups]
    split
    · exact Nat.succ_le_succ (Nat.zero_le k)
    · next large =>
      cases k with
      | zero => exact absurd fits large
      | succ k =>
        refine Nat.succ_le_succ (ih ?_)
        rwa [Nat.div_lt_iff_lt_mul (by decide), ← Nat.pow_succ]

theorem size_le {v : UInt64} {k : Nat} (fits : v.toNat < 128 ^ (k + 1)) : size v ≤ k + 1 := by
  rw [← length_encode]
  exact length_groups_le fits

/-- A larger number never has fewer groups. -/
theorem length_groups_mono {more m n : Nat} (le : m ≤ n) :
    (groups more m).length ≤ (groups more n).length := by
  induction more generalizing m n with
  | zero => exact Nat.le_refl 1
  | succ more ih =>
    rw [groups, groups]
    by_cases small : m < 128
    · rw [if_pos small]
      split <;> exact Nat.succ_le_succ (Nat.zero_le _)
    · have large : ¬ n < 128 := fun small' => small (Nat.lt_of_le_of_lt le small')
      rw [if_neg small, if_neg large]
      exact Nat.succ_le_succ (ih (Nat.div_le_div_right le))

theorem length_encode_mono {a b : UInt64} (le : a ≤ b) : (encode a).length ≤ (encode b).length :=
  length_groups_mono (UInt64.le_iff_toNat_le.1 le)

theorem value_lt (bytes : Bytes) : value bytes < 128 ^ bytes.length := by
  induction bytes with
  | nil => exact Nat.one_pos
  | cons b rest ih =>
    rw [value, List.length_cons, Nat.pow_succ]
    omega

/-- Spellings of one length differ in the number that they make up. -/
theorem eq_of_value_eq {most : Nat} {a b : Bytes} (whole : Complete most a)
    (whole' : Complete most b) (length : a.length = b.length) (same : value a = value b) :
    a = b := by
  induction a generalizing most b with
  | nil => exact absurd whole (not_complete_nil most)
  | cons x xs ih =>
    obtain ⟨y, ys, rfl⟩ := List.exists_cons_of_length_eq_add_one length.symm
    obtain _ | most := most
    · exact absurd whole (not_complete_zero _)
    have short : xs.length = ys.length := Nat.succ.inj length
    have first := x.toNat_lt
    have first' := y.toNat_lt
    rw [value, value] at same
    -- Both end here or neither does, so the high bits of the first bytes are the same.
    rcases complete_cons.1 whole with ⟨low, rfl⟩ | ⟨high, more⟩ <;>
      rcases complete_cons.1 whole' with ⟨low', rfl⟩ | ⟨high', more'⟩
    · rw [UInt8.lt_iff_toNat_lt] at low low'
      change x.toNat < 128 at low
      change y.toNat < 128 at low'
      have digit : x.toNat = y.toNat := by omega
      rw [UInt8.toNat_inj.1 digit]
    · exact absurd (List.length_eq_zero_iff.1 short.symm ▸ more') (not_complete_nil most)
    · exact absurd (List.length_eq_zero_iff.1 short ▸ more) (not_complete_nil most)
    · rw [UInt8.le_iff_toNat_le] at high high'
      change 128 ≤ x.toNat at high
      change 128 ≤ y.toNat at high'
      have digit : x.toNat = y.toNat := by omega
      rw [UInt8.toNat_inj.1 digit, ih more more' short (by omega)]

variable {bytes : Bytes} {v : UInt64}

theorem size_le_of_spells (spelled : Spells bytes v) : size v ≤ bytes.length := by
  obtain ⟨whole, rfl⟩ := spelled
  have nonempty : bytes ≠ [] := fun empty => not_complete_nil 10 (empty ▸ whole)
  obtain ⟨k, length⟩ := Nat.exists_eq_add_one_of_ne_zero
    (fun none => nonempty (List.length_eq_zero_iff.1 none))
  have bound := value_lt bytes
  rw [length] at bound ⊢
  apply size_le
  rw [UInt64.toNat_ofNat']
  exact Nat.lt_of_le_of_lt (Nat.mod_le _ _) bound

/-- Nine bytes hold 63 bits, none of which is lost. -/
theorem eq_encode_of_spells (spelled : Spells bytes v) (small : v.toNat < 2 ^ 63)
    (length : bytes.length = size v) : bytes = encode v := by
  obtain ⟨whole, value_eq⟩ := spelled
  obtain ⟨whole', -⟩ := spells_encode v
  have short : bytes.length ≤ 9 := length ▸ size_le (k := 8) small
  have bound : value bytes < 2 ^ 64 := Nat.lt_of_lt_of_le (value_lt bytes)
    (Nat.le_trans (Nat.pow_le_pow_right (by decide) short) (by decide))
  have written : value (encode v) = v.toNat :=
    value_groups (Nat.lt_trans v.toNat_lt (by decide))
  refine eq_of_value_eq whole whole' (by rw [length, length_encode]) ?_
  rw [written, value_eq, UInt64.toNat_ofNat', Nat.mod_eq_of_lt bound]

/-- What is written for `v` is as long as foretold, is the field form too unless `v` is zero, is
read back as `v` whatever stands behind it, and is the shortest of all byte strings that are read
as `v`. From 2 ^ 63 on there are others of its length, since a tenth byte has bits that are lost. -/
theorem encode_shortest (v : UInt64) :
    (∀ w : Writer, w.write (.varint v) = (.ok (encode v), ⟨w.written ++ encode v⟩)) ∧
    (encode v).length = size v ∧
    encodeField v = (if v = 0 then [] else encode v) ∧
    (∀ (r : Reader) (after : Bytes), r.cursor.unread = encode v ++ after →
      r.run Read.varint = (.ok v, { r with position := r.position + size v })) ∧
    ∀ bytes, (Reader.ofBytes bytes).run Read.varint =
        (.ok v, { Reader.ofBytes bytes with position := bytes.length }) →
      size v ≤ bytes.length ∧ (v.toNat < 2 ^ 63 → bytes.length = size v → bytes = encode v) := by
  refine ⟨fun _ => rfl, length_encode v, encodeField_eq v, ?reads, ?shortest⟩
  case reads =>
    intro r after unread
    rw [Reader.run_of_takes (Read.recognizes_varint.takes (spells_encode v)) unread, length_encode]
  case shortest =>
    intro bytes whole
    have spelled := (Reader.run_ofBytes_iff Read.recognizes_varint).1 whole
    exact ⟨size_le_of_spells spelled, fun small length => eq_encode_of_spells spelled small length⟩

/-- A spelling with a group of zeros, and the one without. -/
theorem encode_shortest_padded :
    let padded := Reader.ofBytes [0xAC, 0x82, 0x00]
    let short := Reader.ofBytes [0xAC, 0x02]
    padded.run Read.varint = (.ok 300, { padded with position := 3 }) ∧ size 300 ≤ 3 ∧
      short.run Read.varint = (.ok 300, { short with position := 2 }) ∧
        [0xAC, 0x02] = encode 300 := by
  intro padded short
  have shortest := (encode_shortest 300).2.2.2.2
  have read : padded.run Read.varint = (.ok 300, { padded with position := 3 }) := rfl
  have read' : short.run Read.varint = (.ok 300, { short with position := 2 }) := rfl
  exact ⟨read, (shortest _ read).1, read', (shortest _ read').2 (by decide) (by decide)⟩

end Protowire.Varint
