import Mathlib.Data.Nat.Bitwise
import Mathlib.Tactic
import StackLang.Machine.Bits
import StackLang.Machine.State

/-!
# Integers as bits

What masks, shifts and disjunctions of integers come to in arithmetic: a mask takes a remainder, and
a disjunction of numbers without a bit in common is their sum. The quotient that is made of the one
of the magnitudes is rounded towards zero.
-/

namespace StackLang

namespace Word

theorem toNat_ofInt (n : Int) : ((Word.ofInt n).toNat : Int) = n % 2 ^ 64 := by
  rw [Word.ofInt, BitVec.toNat_ofInt]
  exact Int.toNat_of_nonneg (Int.emod_nonneg n (by decide))

theorem ofInt_toNat (w : Word) : Word.ofInt w.toNat = w := by
  rw [Word.ofInt, BitVec.ofInt_natCast, BitVec.ofNat_toNat, BitVec.setWidth_eq]

end Word

namespace Bits

theorem testBit_without (m n i : Nat) :
    (without m n).testBit i = (m.testBit i && !n.testBit i) := by
  rw [without, Nat.testBit_xor, Nat.testBit_and]
  cases m.testBit i <;> cases n.testBit i <;> rfl

theorem without_ones (m k : Nat) : without (2 ^ k - 1) m = 2 ^ k - 1 - m % 2 ^ k := by
  have hlt : m % 2 ^ k < 2 ^ k := Nat.mod_lt _ (Nat.two_pow_pos k)
  apply Nat.eq_of_testBit_eq
  intro i
  rw [Nat.sub_sub, Nat.add_comm 1, Nat.testBit_two_pow_sub_succ hlt, testBit_without,
    Nat.testBit_two_pow_sub_one, Nat.testBit_mod_two_pow]
  cases decide (i < k) <;> simp

/-- A mask of low bits takes a remainder. -/
theorem and_ones (n : Int) (k : Nat) : Bits.and n (2 ^ k - 1) = n % 2 ^ k := by
  have hones : (2 ^ k - 1 : Int) = Int.ofNat (2 ^ k - 1) := by
    rw [Int.ofNat_eq_natCast, Nat.cast_sub Nat.one_le_two_pow]
    norm_num
  have hpow : (2 ^ k : Int) = ((2 ^ k : Nat) : Int) := by norm_num
  rw [hones, hpow]
  cases n with
  | ofNat m =>
      rw [Bits.and, Nat.and_two_pow_sub_one_eq_mod]
      exact Int.natCast_mod m (2 ^ k)
  | negSucc m =>
      rw [Bits.and, without_ones, Int.negSucc_emod m (by positivity), Int.ofNat_eq_natCast,
        Nat.cast_sub (Nat.le_sub_one_of_lt (Nat.mod_lt _ (Nat.two_pow_pos k))),
        Nat.cast_sub Nat.one_le_two_pow]
      norm_num

theorem and_mask64 (n : Int) : Bits.and n mask64 = n % 2 ^ 64 :=
  and_ones n 64

/-- What a mask of 64 bits leaves is the word. -/
theorem and_mask64_eq (n : Int) : Bits.and n mask64 = ((Word.ofInt n).toNat : Int) := by
  rw [and_mask64, Word.toNat_ofInt]

theorem and_lowByte (n : Int) : Bits.and n lowByte = n % 256 :=
  and_ones n 8

theorem and_signBit {p : Int} (hlow : 0 ≤ p) (hhigh : p < 2 ^ 64) :
    Bits.and p signBit ≠ 0 ↔ 2 ^ 63 ≤ p := by
  obtain ⟨m, rfl⟩ := Int.eq_ofNat_of_zero_le hlow
  have hbit : Bits.and (m : Int) signBit = Int.ofNat (m &&& 2 ^ 63) := rfl
  have hm : m < 2 ^ 64 := by exact_mod_cast hhigh
  rw [hbit, Nat.and_two_pow, Nat.testBit_eq_decide_div_mod_eq]
  by_cases hbig : 2 ^ 63 ≤ m
  · have hdiv : m / 2 ^ 63 % 2 = 1 := by omega
    rw [hdiv]
    exact iff_of_true (by decide) (by exact_mod_cast hbig)
  · have hdiv : m / 2 ^ 63 % 2 = 0 := by omega
    rw [hdiv]
    exact iff_of_false (by decide) (by exact_mod_cast hbig)

/-- The reading of 64 bits as a signed number is that of the word. -/
theorem toSigned_eq (n : Int) : toSigned n = (Word.ofInt n).toInt := by
  have hlow : 0 ≤ n % 2 ^ 64 := Int.emod_nonneg n (by decide)
  have hhigh : n % 2 ^ 64 < 2 ^ 64 := Int.emod_lt_of_pos n (by decide)
  rw [Word.ofInt, BitVec.toInt_ofInt, Int.bmod_def]
  simp only [toSigned, and_mask64, and_signBit hlow hhigh, Int.shiftLeft_eq]
  norm_num at hlow hhigh ⊢
  split <;> split <;> omega

/-! ## Disjunctions -/

theorem or_of_disjoint {m n k : Nat} (hm : m % 2 ^ k = 0) (hn : n < 2 ^ k) : m ||| n = m + n := by
  obtain ⟨a, rfl⟩ := Nat.dvd_of_mod_eq_zero hm
  exact (Nat.two_pow_add_eq_or_of_lt hn a).symm

/-- Bits that are set can be taken away by subtraction. -/
theorem without_of_ones {m n k : Nat} (hm : m % 2 ^ k = 2 ^ k - 1) (hn : n < 2 ^ k) :
    without m n = m - n := by
  have hsplit : m - n = 2 ^ k * (m / 2 ^ k) + (2 ^ k - (n + 1)) := by
    have hdiv := Nat.div_add_mod m (2 ^ k)
    omega
  apply Nat.eq_of_testBit_eq
  intro i
  rw [hsplit, Nat.testBit_two_pow_mul_add _ (by omega), Nat.testBit_two_pow_sub_succ hn,
    testBit_without]
  by_cases hi : i < k
  · have hbit : m.testBit i = true := by
      have hmod := Nat.testBit_mod_two_pow m k i
      rwa [hm, Nat.testBit_two_pow_sub_one, decide_eq_true hi, Bool.true_and, eq_comm] at hmod
    rw [if_pos hi, decide_eq_true hi, hbit]
  · have hzero : n.testBit i = false := Nat.testBit_lt_two_pow
      (hn.trans_le (Nat.pow_le_pow_right (by decide) (Nat.le_of_not_lt hi)))
    rw [if_neg hi, hzero, Bool.not_false, Bool.and_true, Nat.testBit_div_two_pow,
      Nat.sub_add_cancel (Nat.le_of_not_lt hi)]

/-- A low half is added by a disjunction, also to a negative number. -/
theorem joined_eq {high low : Int} (hlow : 0 ≤ low) (hhigh : low < 2 ^ 64) :
    joined high low = high * 2 ^ 64 + low := by
  obtain ⟨n, rfl⟩ := Int.eq_ofNat_of_zero_le hlow
  have hn : n < 2 ^ 64 := by exact_mod_cast hhigh
  rw [joined, Int.shiftLeft_eq]
  cases high with
  | ofNat a =>
      have hshift : Int.ofNat a * 2 ^ 64 = Int.ofNat (a * 2 ^ 64) := rfl
      rw [hshift]
      change Int.ofNat (a * 2 ^ 64 ||| n) = _
      rw [or_of_disjoint (Nat.mul_mod_left a _) hn]
      rfl
  | negSucc a =>
      have hshift : Int.negSucc a * 2 ^ 64 = Int.negSucc (a * 2 ^ 64 + (2 ^ 64 - 1)) := by
        omega
      rw [hshift]
      change Int.negSucc (without (a * 2 ^ 64 + (2 ^ 64 - 1)) n) = _
      rw [without_of_ones (by omega) hn]
      omega

/-! ## Division -/

theorem quotient_eq (n d : Int) : quotient n d = n.tdiv d := by
  unfold quotient
  rcases lt_or_ge n 0 with hn | hn
  · obtain ⟨a, rfl⟩ := Int.exists_eq_neg_ofNat hn.le
    rcases lt_or_ge d 0 with hd | hd
    · obtain ⟨b, rfl⟩ := Int.exists_eq_neg_ofNat hd.le
      rw [decide_eq_true hn, decide_eq_true hd]
      simp [Int.neg_tdiv]
    · obtain ⟨b, rfl⟩ := Int.eq_ofNat_of_zero_le hd
      rw [decide_eq_true hn, decide_eq_false hd.not_gt]
      simp [Int.neg_tdiv]
  · obtain ⟨a, rfl⟩ := Int.eq_ofNat_of_zero_le hn
    rcases lt_or_ge d 0 with hd | hd
    · obtain ⟨b, rfl⟩ := Int.exists_eq_neg_ofNat hd.le
      rw [decide_eq_false hn.not_gt, decide_eq_true hd]
      simp
    · obtain ⟨b, rfl⟩ := Int.eq_ofNat_of_zero_le hd
      rw [decide_eq_false hn.not_gt, decide_eq_false hd.not_gt]
      simp

theorem remainder_eq (n d : Int) : remainder n d = n.tmod d := by
  rw [remainder, quotient_eq, Int.tmod_def, mul_comm]

end Bits

end StackLang
