import Mathlib.Tactic
import StackLang.Machine.Step
import StackLang.Meaning
import StackLang.Proofs.IntegerBits

/-!
# Machine arithmetic

The instructions work on exact integers and bits; the operations of the language are those of words.
-/

namespace StackLang

namespace Word

/-- The integers that are values of signed words. -/
def InRange (n : Int) : Prop :=
  -2 ^ 63 ≤ n ∧ n < 2 ^ 63

instance : DecidablePred InRange :=
  fun n => inferInstanceAs (Decidable (-2 ^ 63 ≤ n ∧ n < 2 ^ 63))

theorem inRange_toInt (w : Word) : InRange w.toInt :=
  ⟨BitVec.le_toInt w, BitVec.toInt_lt⟩

theorem toInt_ofInt_eq_iff {n : Int} : (Word.ofInt n).toInt = n ↔ InRange n := by
  constructor
  · intro h
    rw [← h]
    exact inRange_toInt _
  · rintro ⟨hlow, hhigh⟩
    exact BitVec.toInt_ofInt_eq_self (by decide) hlow hhigh

theorem ofInt_add (x y : Word) : Word.ofInt (x.toInt + y.toInt) = x + y := by
  rw [Word.ofInt, BitVec.ofInt_add, BitVec.ofInt_toInt, BitVec.ofInt_toInt]

theorem ofInt_sub_ofInt (x y : Int) : Word.ofInt x - Word.ofInt y = Word.ofInt (x - y) := by
  rw [Int.sub_eq_add_neg, Word.ofInt, Word.ofInt, Word.ofInt, BitVec.ofInt_add, BitVec.ofInt_neg,
    BitVec.sub_eq_add_neg]

theorem ofInt_sub (x y : Word) : Word.ofInt (x.toInt - y.toInt) = x - y := by
  rw [← ofInt_sub_ofInt, Word.ofInt, Word.ofInt, BitVec.ofInt_toInt, BitVec.ofInt_toInt]

theorem ofInt_mul (x y : Word) : Word.ofInt (x.toInt * y.toInt) = x * y := by
  rw [Word.ofInt, BitVec.ofInt_mul, BitVec.ofInt_toInt, BitVec.ofInt_toInt]

theorem ofInt_tdiv (x y : Word) : Word.ofInt (x.toInt.tdiv y.toInt) = x.sdiv y := by
  rw [← BitVec.toInt_inj, BitVec.toInt_sdiv, Word.ofInt, BitVec.toInt_ofInt]

theorem lowByte_withLowByte (x w : Word) : (x.withLowByte w).lowByte = w.lowByte := by
  unfold withLowByte lowByte
  ext i
  simp only [BitVec.getElem_and, BitVec.getElem_or, BitVec.getElem_not]
  cases (255#64)[i] <;> simp

theorem lowByte_ofBool (b : Bool) : (Word.ofBool b).lowByte = Word.ofBool b := by
  cases b <;> rfl

/-- The low byte is the value modulo 256. -/
theorem lowByte_toNat (x : Word) : (x.lowByte.toNat : Int) = x.toInt % 256 := by
  have hand : x.lowByte.toNat = x.toNat % 256 := by
    rw [lowByte, BitVec.toNat_and]
    exact Nat.and_two_pow_sub_one_eq_mod x.toNat 8
  rw [hand, BitVec.toInt_eq_toNat_cond]
  split <;> omega

end Word

/-! ## Comparison -/

namespace Flags

theorem zero_ofResult (x y : Word) : (ofResult (x.toInt - y.toInt)).zero = (x == y) := by
  simp only [ofResult, Word.ofInt_sub]
  by_cases h : x = y
  · simp [h]
  · simp [h, BitVec.sub_eq_iff_eq_add]

theorem overflow_ofResult (n : Int) : (ofResult n).overflow = !decide (Word.InRange n) := by
  simp only [ofResult, bne, beq_eq_decide, Word.toInt_ofInt_eq_iff]

/-- Out of range, by less than `2 ^ 64`, the sign of the word is the wrong one. -/
theorem sign_ofResult {n : Int} (hlow : -2 ^ 64 ≤ n) (hhigh : n < 2 ^ 64) :
    (ofResult n).sign = if Word.InRange n then decide (n < 0) else decide (0 ≤ n) := by
  have hsign : (ofResult n).sign = decide (n.bmod (2 ^ 64) < 0) := by
    rw [ofResult, BitVec.msb_eq_toInt, Word.ofInt, BitVec.toInt_ofInt]
  rw [hsign, Int.bmod_def]
  unfold Word.InRange
  norm_num at hlow hhigh ⊢
  split <;> split <;> simp only [decide_eq_decide] <;> omega

/-- Sign and overflow differ exactly if the exact result is negative. -/
theorem negative_ofResult {n : Int} (hlow : -2 ^ 64 ≤ n) (hhigh : n < 2 ^ 64) :
    ((ofResult n).sign != (ofResult n).overflow) = decide (n < 0) := by
  rw [sign_ofResult hlow hhigh, overflow_ofResult]
  by_cases hrange : Word.InRange n
  · simp [hrange]
  · simp only [hrange, if_false, decide_false, Bool.not_false, Bool.bne_true, ← decide_not, not_le]

/-- Sign and overflow differ exactly if the first operand is less. -/
theorem less_ofResult (x y : Word) :
    ((ofResult (x.toInt - y.toInt)).sign != (ofResult (x.toInt - y.toInt)).overflow) =
      x.slt y := by
  obtain ⟨hx, hx'⟩ := Word.inRange_toInt x
  obtain ⟨hy, hy'⟩ := Word.inRange_toInt y
  rw [negative_ofResult (by omega) (by omega), BitVec.slt_eq_decide, decide_eq_decide]
  omega

theorem lessOrEqual_ofResult (x y : Word) :
    ((ofResult (x.toInt - y.toInt)).zero ||
      (ofResult (x.toInt - y.toInt)).sign != (ofResult (x.toInt - y.toInt)).overflow) =
        x.sle y := by
  rw [less_ofResult, zero_ofResult, BitVec.slt_eq_decide, BitVec.sle_eq_decide, Bool.eq_iff_iff]
  simp only [Bool.or_eq_true, beq_iff_eq, decide_eq_true_eq, ← BitVec.toInt_inj]
  omega

end Flags

/-! ## Division -/

/-- With its sign in front, a word is the same number. -/
theorem Word.toInt_sign_append (x : Word) :
    ((if x.msb then (-1 : Word) else 0) ++ x).toInt = x.toInt := by
  rw [BitVec.toInt_append, BitVec.toInt_eq_msb_cond x]
  cases x.msb with
  | false => simp
  | true =>
      have h : (-1 : Word).toInt = -1 := rfl
      simp only [if_true, h]
      omega

theorem Word.sdiv_exact_iff (x y : Word) :
    (x.sdiv y).toInt = x.toInt.tdiv y.toInt ↔ ¬ (x = BitVec.intMin 64 ∧ y = -1) := by
  constructor
  · rintro h ⟨rfl, rfl⟩
    revert h
    decide
  · intro h
    exact BitVec.toInt_sdiv_of_ne_or_ne x y (by tauto)

/-- Of the quotients of two words only one is no word. -/
theorem Word.inRange_tdiv (x y : Word) :
    InRange (x.toInt.tdiv y.toInt) ↔ ¬ (x = BitVec.intMin 64 ∧ y = -1) := by
  rw [← toInt_ofInt_eq_iff, ofInt_tdiv, sdiv_exact_iff]

namespace State

/-- The signed number of 128 bits with `rdx` as its high half and `rax` as its low half. -/
def dividend (s : State) : Int :=
  (s.registers.rdx ++ s.registers.rax).toInt

/-- The state with a quotient in `rax` and a remainder in `rdx`. -/
def withQuotient (s : State) (quotient remainder : Int) : State :=
  { s with registers :=
    { s.registers with rax := Word.ofInt quotient, rdx := Word.ofInt remainder } }

theorem joined_registers (s : State) :
    Bits.joined s.registers.rdx.toInt s.registers.rax.toNat = s.dividend := by
  have hlt : (s.registers.rax.toNat : Int) < 2 ^ 64 := by exact_mod_cast s.registers.rax.isLt
  rw [Bits.joined_eq (Int.natCast_nonneg _) hlt, dividend, BitVec.toInt_append, mul_comm]
  rfl

theorem dividend_of_sign {s : State}
    (h : s.registers.rdx = if s.registers.rax.msb then -1 else 0) :
    s.dividend = s.registers.rax.toInt := by
  rw [dividend, h]
  exact Word.toInt_sign_append s.registers.rax

end State

namespace Exec

theorem get_bind {α : Type} (f : State → Exec α) (s : State) : (get >>= f) s = f s s := rfl

theorem pop_bind {α : Type} (f : Word → Exec α) (s : State) :
    (pop >>= f) s = f (s.memory.read s.registers.rsp)
      { s with registers := { s.registers with rsp := s.registers.rsp + 8 } } :=
  rfl

theorem divide_zero (s : State) : divide 0 s = .error .divisionByZero s := rfl

theorem divide_by (w : Word) (s : State) :
    divide w s =
      if w.toInt = 0 then .error .divisionByZero s
      else if Word.InRange (s.dividend.tdiv w.toInt) then
        .ok () (s.withQuotient (s.dividend.tdiv w.toInt) (s.dividend.tmod w.toInt))
      else .error .quotientRange s := by
  unfold divide
  by_cases hzero : w.toInt = 0
  · simp only [hzero, if_true]
    rfl
  · simp only [hzero, if_false, get_bind, State.joined_registers, Bits.quotient_eq,
      Bits.remainder_eq, Bits.toSigned_eq]
    by_cases hrange : Word.InRange (s.dividend.tdiv w.toInt)
    · rw [if_neg (not_not.mpr (Word.toInt_ofInt_eq_iff.mpr hrange)), if_pos hrange]
      rfl
    · rw [if_pos (mt Word.toInt_ofInt_eq_iff.mp hrange), if_neg hrange]
      rfl

theorem divide_eq {y : Word} (hy : y ≠ 0) {s : State}
    (hrdx : s.registers.rdx = if s.registers.rax.msb then -1 else 0) :
    divide y s =
      if s.registers.rax = BitVec.intMin 64 ∧ y = -1 then .error .quotientRange s
      else .ok () { s with registers := { s.registers with
        rax := s.registers.rax.sdiv y
        rdx := Word.ofInt (s.registers.rax.toInt.tmod y.toInt) } } := by
  have hne : y.toInt ≠ 0 := by simpa [← BitVec.toInt_inj] using hy
  have hrange := Word.inRange_tdiv s.registers.rax y
  rw [divide_by, if_neg hne, State.dividend_of_sign hrdx]
  by_cases hleast : s.registers.rax = BitVec.intMin 64 ∧ y = -1
  · rw [if_neg (fun h => hrange.mp h hleast), if_pos hleast]
  · rw [if_pos (hrange.mpr hleast), if_neg hleast, State.withQuotient, Word.ofInt_tdiv]

end Exec

end StackLang
