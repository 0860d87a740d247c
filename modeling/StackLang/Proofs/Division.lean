import StackLang.Proofs.OperandValue

/-!
# Division

`idiv` divides the signed number of 128 bits in `rdx` and `rax`. It fails exactly if the divisor is
zero or the quotient, rounded towards zero, is no signed word. After `cqo` what is divided is `rax`,
and of all quotients only that of the least word by minus one is too large.
-/

namespace StackLang

namespace Word

theorem toInt_eq_neg_one_iff {w : Word} : w.toInt = -1 ↔ w = -1 := by
  rw [← BitVec.toInt_inj]
  rfl

theorem toInt_eq_least_iff {w : Word} : w.toInt = -2 ^ 63 ↔ w = BitVec.intMin 64 := by
  rw [← BitVec.toInt_inj, BitVec.toInt_intMin]
  rfl

theorem toInt_ofInt_tmod (x y : Word) :
    (Word.ofInt (x.toInt.tmod y.toInt)).toInt = x.toInt.tmod y.toInt := by
  rw [← BitVec.toInt_srem, Word.ofInt, BitVec.ofInt_toInt]

end Word

/-- A quotient rounded towards zero: the remainder, if there is one, has the sign of what is
divided. -/
structure Truncates (dividend divisor quotient remainder : Int) : Prop where
  exact_sum : dividend = quotient * divisor + remainder
  small : |remainder| < |divisor|
  sign : remainder = 0 ∨ remainder.sign = dividend.sign

theorem truncates_tdiv (n : Int) {d : Int} (hd : d ≠ 0) :
    Truncates n d (n.tdiv d) (n.tmod d) where
  exact_sum := (Int.tdiv_mul_add_tmod n d).symm
  small := by
    have hlt : n.natAbs % d.natAbs < d.natAbs := Nat.mod_lt _ (Int.natAbs_pos.mpr hd)
    rw [← Int.natAbs_tmod] at hlt
    rw [Int.abs_eq_natAbs, Int.abs_eq_natAbs]
    exact Int.ofNat_lt.mpr hlt
  sign := by
    have hsign := Int.sign_tmod n d
    split at hsign
    · exact Or.inl (Int.sign_eq_zero_iff_zero.mp hsign)
    · exact Or.inr hsign

/-! ## Divisions by the machine -/

namespace State

/-- The state with the sign of `rax` in every bit of `rdx`. -/
def withSign (s : State) : State :=
  { s with registers := { s.registers with rdx := if s.registers.rax.msb then -1 else 0 } }

theorem dividend_withSign (s : State) : s.withSign.dividend = s.registers.rax.toInt :=
  dividend_of_sign rfl

/-- An operand that has nothing to do with `rdx` keeps its value. -/
theorem value?_withSign (s : State) {o : Operand} (h : o.register? ≠ some .rdx) :
    o.value? s.withSign = o.value? s := by
  refine Operand.value?_congr (fun r hr => ?_) rfl
  cases r with
  | rdx => exact absurd hr h
  | _ => rfl

end State

namespace Listing

/-- The outcome is a failure that is reported as one of a division. -/
def FailsDividing (l : Listing) (x : EStateM.Result Fault State Unit) : Prop :=
  ∃ fault τ d, x = .error fault τ ∧ fault.diagnostic? l.filename = some d ∧ d.category = .division

/-- The outcome of dividing: a failure, or the state `s` with quotient and remainder in it. -/
structure Divides (l : Listing) (dividend divisor : Int) (s : State)
    (x : EStateM.Result Fault State Unit) : Prop where
  fails_iff : l.FailsDividing x ↔ divisor = 0 ∨ ¬ Word.InRange (dividend.tdiv divisor)
  succeeds : divisor ≠ 0 → Word.InRange (dividend.tdiv divisor) →
    ∃ remainder τ, Truncates dividend divisor (dividend.tdiv divisor) remainder ∧ x = .ok () τ ∧
      (τ.registers.rax.toNat : Int) = dividend.tdiv divisor % 2 ^ 64 ∧
      (τ.registers.rdx.toNat : Int) = remainder % 2 ^ 64 ∧
      τ = { s with registers :=
        { s.registers with rax := τ.registers.rax, rdx := τ.registers.rdx } }

variable {l : Listing} {s : State} {source : Operand} {rest ops : List Operand} {w : Word}

theorem not_failsDividing_ok (l : Listing) (s : State) : ¬ l.FailsDividing (.ok () s) := by
  rintro ⟨fault, τ, d, hx, -⟩
  cases hx

theorem value?_tick (o : Operand) (s : State) : o.value? s.tick = o.value? s :=
  Operand.value?_congr (fun _ _ => rfl) rfl

theorem Has.step_cqo (h : l.Has s.pc ⟨.cqo, ops⟩) : l.step s = .ok () s.tick.withSign :=
  h.step_ok rfl

theorem Has.step_idiv_fails (h : l.Has s.pc ⟨.idiv, source :: rest⟩) (hw : source.value? s = some w)
    (hfail : w.toInt = 0 ∨ ¬ Word.InRange (s.dividend.tdiv w.toInt)) :
    l.FailsDividing (l.step s) := by
  have hread := Exec.readOperand_of_value? ((value?_tick source s).trans hw)
  have hinstr : Exec.instr l.labels ⟨.idiv, source :: rest⟩ s.tick = Exec.divide w s.tick :=
    Exec.bind_ok hread Exec.divide
  rw [Exec.divide_by] at hinstr
  by_cases hzero : w.toInt = 0
  · rw [if_pos hzero] at hinstr
    obtain ⟨p, hp⟩ := h.step_error hinstr
    exact ⟨_, _, _, hp, rfl, rfl⟩
  · have hrange : ¬ Word.InRange (s.tick.dividend.tdiv w.toInt) := hfail.resolve_left hzero
    rw [if_neg hzero, if_neg hrange] at hinstr
    obtain ⟨p, hp⟩ := h.step_error hinstr
    exact ⟨_, _, _, hp, rfl, rfl⟩

theorem Has.step_idiv (h : l.Has s.pc ⟨.idiv, source :: rest⟩) (hw : source.value? s = some w)
    (hzero : w.toInt ≠ 0) (hrange : Word.InRange (s.dividend.tdiv w.toInt)) :
    l.step s = .ok ()
      (s.tick.withQuotient (s.dividend.tdiv w.toInt) (s.dividend.tmod w.toInt)) := by
  have hread := Exec.readOperand_of_value? ((value?_tick source s).trans hw)
  refine h.step_ok ((Exec.bind_ok hread Exec.divide).trans ?_)
  have hrange' : Word.InRange (s.tick.dividend.tdiv w.toInt) := hrange
  rw [Exec.divide_by, if_neg hzero, if_pos hrange']
  rfl

theorem Has.divides (h : l.Has s.pc ⟨.idiv, source :: rest⟩) (hw : source.value? s = some w) :
    l.Divides s.dividend w.toInt s.tick (l.step s) where
  fails_iff := by
    refine ⟨fun hfails => ?_, h.step_idiv_fails hw⟩
    by_contra hok
    rw [not_or, not_not] at hok
    rw [h.step_idiv hw hok.1 hok.2] at hfails
    exact not_failsDividing_ok _ _ hfails
  succeeds := fun hzero hrange =>
    ⟨_, _, truncates_tdiv _ hzero, h.step_idiv hw hzero hrange, Word.toNat_ofInt _,
      Word.toNat_ofInt _, rfl⟩

/-- What `idiv` does with the value of its operand. After `cqo`, which leaves every operand as it
was that has nothing to do with `rdx`, it divides `rax`. -/
theorem idiv_truncates (l : Listing) (s : State) (source : Operand) (rest : List Operand) :
    (l.Has s.pc ⟨.idiv, source :: rest⟩ → ∀ w, source.value? s = some w →
      l.Divides s.dividend w.toInt s.tick (l.step s)) ∧
    ∀ ops, l.Has s.pc ⟨.cqo, ops⟩ → l.Has (s.pc + 1) ⟨.idiv, source :: rest⟩ →
      ∃ σ, l.step s = .ok () σ ∧
        (source.register? ≠ some .rdx → source.value? σ = source.value? s) ∧
        ∀ w, source.value? σ = some w →
          (l.FailsDividing (l.step σ) ↔
            w.toInt = 0 ∨ s.registers.rax.toInt = -2 ^ 63 ∧ w.toInt = -1) ∧
          (¬ (w.toInt = 0 ∨ s.registers.rax.toInt = -2 ^ 63 ∧ w.toInt = -1) →
            ∃ τ, l.step σ = .ok () τ ∧
              τ.registers.rax.toInt = s.registers.rax.toInt.tdiv w.toInt ∧
              τ.registers.rdx.toInt = s.registers.rax.toInt.tmod w.toInt) := by
  refine ⟨fun h w hw => h.divides hw, fun ops hcqo hidiv => ?_⟩
  refine ⟨s.tick.withSign, hcqo.step_cqo, fun hrdx => ?_, fun w hw => ?_⟩
  · rw [State.value?_withSign _ hrdx, value?_tick]
  · have hnext : l.Has s.tick.withSign.pc ⟨.idiv, source :: rest⟩ := hidiv
    have hdivides := hnext.divides hw
    rw [State.dividend_withSign] at hdivides
    have hrange := Word.inRange_tdiv s.registers.rax w
    rw [← Word.toInt_eq_least_iff, ← Word.toInt_eq_neg_one_iff] at hrange
    refine ⟨?_, fun hok => ?_⟩
    · rw [hdivides.fails_iff]
      exact or_congr_right ((not_congr hrange).trans not_not)
    · rw [not_or] at hok
      have hin := hrange.mpr hok.2
      refine ⟨_, hnext.step_idiv hw hok.1 ?_, ?_, ?_⟩
      · rw [State.dividend_withSign]
        exact hin
      · rw [State.dividend_withSign]
        exact Word.toInt_ofInt_eq_iff.mpr hin
      · rw [State.dividend_withSign]
        exact Word.toInt_ofInt_tmod _ _

def halves : Listing where
  instructions := #[⟨⟨.cqo, []⟩, 1, "cqo"⟩, ⟨⟨.idiv, [.mem .rbp (-8)]⟩, 2, "idiv [rbp-8]"⟩]

/-- Minus seven in `rax`, and two in the memory. What is in `rdx` makes the number to be divided
too large, unless `cqo` is executed first. -/
def halvedAt (pc : Int) : State where
  registers := { rax := -7, rdx := 5, rbp := 16 }
  memory := ({} : Memory).write 8 2
  pc := pc

theorem idiv_truncates_halves :
    (halvedAt 1).dividend = 6 * 2 ^ 64 - 7 ∧ halves.FailsDividing (halves.step (halvedAt 1)) ∧
      ∃ σ τ, halves.step (halvedAt 0) = .ok () σ ∧ halves.step σ = .ok () τ ∧
        τ.registers.rax.toInt = -3 ∧ τ.registers.rdx.toInt = -1 := by
  have hvalue : ∀ pc, Operand.value? (halvedAt pc) (.mem .rbp (-8)) = some 2 := by
    intro pc
    have haddress : (16 : Word) + Word.ofInt (-8) = 8 := by decide
    change some ((({} : Memory).write 8 2).read (16 + Word.ofInt (-8))) = some 2
    rw [haddress, Memory.read_write_self]
  refine ⟨by decide, ?_, ?_⟩
  · have hdivides := (idiv_truncates halves (halvedAt 1) (.mem .rbp (-8)) []).1
      ⟨_, rfl, rfl⟩ 2 (hvalue 1)
    exact hdivides.fails_iff.mpr (Or.inr (by decide))
  · obtain ⟨σ, hσ, hkept, hdivides⟩ :=
      (idiv_truncates halves (halvedAt 0) (.mem .rbp (-8)) []).2 [] ⟨_, rfl, rfl⟩ ⟨_, rfl, rfl⟩
    obtain ⟨τ, hτ, hquotient, hremainder⟩ :=
      (hdivides 2 ((hkept (by decide)).trans (hvalue 0))).2 (by decide)
    exact ⟨σ, τ, hσ, hτ, hquotient.trans (by decide), hremainder.trans (by decide)⟩

end Listing

end StackLang
