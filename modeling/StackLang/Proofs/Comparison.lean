import StackLang.Proofs.Division

/-!
# Sums, differences and comparisons

The flags after `add`, `sub` and `cmp` tell the exact result, also where it is no word: whether it
is zero modulo `2 ^ 64`, whether it is negative, and whether it is out of range. So what a
comparison leaves behind decides equality and the order of signed numbers.
-/

namespace StackLang

namespace Flags

/-- What the flags say about the exact result of an operation. -/
structure Tell (f : Flags) (exact : Int) : Prop where
  zero : f.zero = true ↔ exact % 2 ^ 64 = 0
  negative : f.sign ≠ f.overflow ↔ exact < 0
  overflow : f.overflow = true ↔ ¬ Word.InRange exact

theorem ofResult_tell {n : Int} (hlow : -2 ^ 64 ≤ n) (hhigh : n < 2 ^ 64) :
    (ofResult n).Tell n where
  zero := by
    have hword : Word.ofInt n = 0 ↔ ((Word.ofInt n).toNat : Int) = 0 := by
      rw [← BitVec.toNat_inj]
      exact Int.natCast_eq_zero.symm
    simp only [ofResult, beq_iff_eq]
    rw [hword, Word.toNat_ofInt]
  negative := by
    rw [← bne_iff_ne, negative_ofResult hlow hhigh, decide_eq_true_iff]
  overflow := by
    rw [overflow_ofResult]
    simp

end Flags

namespace Mnemonic

/-- The instructions that store an exact result modulo `2 ^ 64`, and which result that is. -/
inductive Sums : Mnemonic → (Int → Int → Int) → Prop where
  | add : Sums .add (· + ·)
  | sub : Sums .sub (· - ·)

/-- What an instruction that sets a byte by the flags says about the operands of a comparison. -/
def relation? : Mnemonic → Option (Int → Int → Bool)
  | .sete => some fun x y => x = y
  | .setne => some fun x y => x ≠ y
  | .setl => some fun x y => x < y
  | .setle => some fun x y => x ≤ y
  | _ => none

theorem Sums.tell {m : Mnemonic} {op : Int → Int → Int} (h : m.Sums op) (x y : Word) :
    (Flags.ofResult (op x.toInt y.toInt)).Tell (op x.toInt y.toInt) := by
  obtain ⟨hx, hx'⟩ := Word.inRange_toInt x
  obtain ⟨hy, hy'⟩ := Word.inRange_toInt y
  apply Flags.ofResult_tell <;> cases h <;> dsimp only <;> omega

end Mnemonic

/-- The state with the flags set by the exact result of an operation. -/
def State.flagged (s : State) (exact : Int) : State :=
  { s with flags := .ofResult exact }

theorem State.value?_flagged (s : State) (exact : Int) (o : Operand) :
    o.value? (s.flagged exact) = o.value? s :=
  Operand.value?_congr (fun _ _ => rfl) rfl

namespace Exec

variable {s : State} {left right : Operand} {x y : Word} {rest : List Operand}

theorem arithmetic_of_value? (hx : left.value? s = some x) (hy : right.value? s = some y)
    (op : Int → Int → Int) :
    arithmetic op left right s =
      .ok (Word.ofInt (op x.toInt y.toInt)) (s.flagged (op x.toInt y.toInt)) := by
  unfold arithmetic
  rw [bind_ok (readOperand_of_value? hx), bind_ok (readOperand_of_value? hy)]
  rfl

theorem instr_sums {m : Mnemonic} {op : Int → Int → Int} (hm : m.Sums op) (labels : LabelTable)
    (hx : left.value? s = some x) (hy : right.value? s = some y) :
    instr labels ⟨m, left :: right :: rest⟩ s =
      writeOperand left (Word.ofInt (op x.toInt y.toInt)) (s.flagged (op x.toInt y.toInt)) := by
  cases hm with
  | add => exact bind_ok (arithmetic_of_value? hx hy _) _
  | sub => exact bind_ok (arithmetic_of_value? hx hy _) _

theorem instr_cmp (labels : LabelTable) (hx : left.value? s = some x)
    (hy : right.value? s = some y) :
    instr labels ⟨.cmp, left :: right :: rest⟩ s = .ok () (s.flagged (x.toInt - y.toInt)) :=
  bind_ok (arithmetic_of_value? hx hy _) _

/-- After a comparison the byte is set by the relation of what was compared. -/
theorem instr_sets {m : Mnemonic} {rel : Int → Int → Bool} (hm : m.relation? = some rel)
    (labels : LabelTable) (hflags : s.flags = .ofResult (x.toInt - y.toInt)) :
    instr labels ⟨m, .reg .al :: rest⟩ s =
      .ok () (s.put (.reg .al) (Word.ofBool (rel x.toInt y.toInt))) := by
  have hset : ∀ (condition : Flags → Bool) (b : Bool), condition s.flags = b →
      setIf (.reg .al) condition s = .ok () (s.put (.reg .al) (Word.ofBool b)) := by
    rintro condition b rfl
    rfl
  cases m
  case sete =>
    cases hm
    refine hset (fun f => f.zero) _ ?_
    simp only [hflags, Flags.zero_ofResult, beq_eq_decide, ← BitVec.toInt_inj]
  case setne =>
    cases hm
    refine hset (fun f => !f.zero) _ ?_
    simp only [hflags, Flags.zero_ofResult, beq_eq_decide, ← BitVec.toInt_inj, ne_eq, decide_not]
  case setl =>
    cases hm
    refine hset (fun f => f.sign != f.overflow) _ ?_
    simp only [hflags, Flags.less_ofResult, BitVec.slt_eq_decide]
  case setle =>
    cases hm
    refine hset (fun f => f.zero || f.sign != f.overflow) _ ?_
    simp only [hflags, Flags.lessOrEqual_ofResult, BitVec.sle_eq_decide]
  all_goals cases hm

/-- The byte that was set becomes the whole of `rax`. -/
theorem instr_movzb_put (labels : LabelTable) (rest : List Operand) (s : State) (b : Bool) :
    ∃ τ, instr labels ⟨.movzb, .reg .rax :: .reg .al :: rest⟩
        (s.put (.reg .al) (Word.ofBool b)) = .ok () τ ∧
      τ.registers.rax = Word.ofBool b := by
  refine ⟨_, rfl, ?_⟩
  change ((s.registers.rax.withLowByte (Word.ofBool b)).lowByte).lowByte = _
  rw [Word.lowByte_withLowByte, Word.lowByte_ofBool, Word.lowByte_ofBool]

theorem instr_je {labels : LabelTable} {name : String} {index : Int}
    (hname : labels.find? name = some index)
    (hflags : s.flags = .ofResult (x.toInt - y.toInt)) :
    instr labels ⟨.je, .label name :: rest⟩ s =
      .ok () { s with pc := if x.toInt = y.toInt then index else s.pc } := by
  have hinstr : instr labels ⟨.je, .label name :: rest⟩ s =
      (if s.flags.zero = true then jump labels (.label name) else pure () : Exec Unit) s := rfl
  have hzero : s.flags.zero = true ↔ x.toInt = y.toInt := by
    rw [hflags, Flags.zero_ofResult, beq_iff_eq, BitVec.toInt_inj]
  rw [hinstr]
  by_cases heq : x.toInt = y.toInt
  · rw [if_pos (hzero.mpr heq), if_pos heq, jump, hname]
    rfl
  · rw [if_neg (mt hzero.mp heq), if_neg heq]
    rfl

end Exec

namespace Listing

variable {l : Listing} {s : State} {left right : Operand} {x y : Word}
  {rest rest₁ rest₂ : List Operand}

theorem Has.step_cmp (h : l.Has s.pc ⟨.cmp, left :: right :: rest⟩) (hx : left.value? s = some x)
    (hy : right.value? s = some y) : l.step s = .ok () (s.tick.flagged (x.toInt - y.toInt)) := by
  rw [← value?_tick] at hx hy
  exact h.step_ok (Exec.instr_cmp l.labels hx hy)

section

variable {m : Mnemonic} {op : Int → Int → Int}

theorem Has.step_sums (h : l.Has s.pc ⟨m, left :: right :: rest⟩) (hm : m.Sums op)
    (hx : left.value? s = some x) (hy : right.value? s = some y) (hplace : left.isPlace = true) :
    l.step s = .ok () ((s.tick.flagged (op x.toInt y.toInt)).put left
      (Word.ofInt (op x.toInt y.toInt))) := by
  rw [← value?_tick] at hx hy
  refine h.step_ok ((Exec.instr_sums hm l.labels hx hy).trans ?_)
  rw [← State.value?_flagged] at hx
  exact Exec.writeOperand_of_value? hplace hx _

theorem Has.flags_sums (h : l.Has s.pc ⟨m, left :: right :: rest⟩) (hm : m.Sums op)
    (hx : left.value? s = some x) (hy : right.value? s = some y) :
    (endState (l.step s)).flags = .ofResult (op x.toInt y.toInt) := by
  cases hleft : left.isPlace with
  | true =>
      rw [h.step_sums hm hx hy hleft]
      exact State.put_flags _ _ _
  | false =>
      cases left with
      | imm value =>
          rw [← value?_tick] at hx hy
          obtain ⟨p, hp⟩ := h.step_error (Exec.instr_sums hm l.labels hx hy)
          rw [hp]
          rfl
      | label name => cases hx
      | reg r => cases hleft
      | mem base d => cases hleft

theorem Has.stores_sums (h : l.Has s.pc ⟨m, left :: right :: rest⟩) (hm : m.Sums op)
    (hx : left.value? s = some x) (hy : right.value? s = some y) (hplace : left.isPlace = true)
    (hal : left ≠ .reg .al) :
    ∃ τ, l.step s = .ok () τ ∧ left.value? τ = some (Word.ofInt (op x.toInt y.toInt)) := by
  have hflagged : left.value? (s.tick.flagged (op x.toInt y.toInt)) = some x := by
    rw [State.value?_flagged, value?_tick, hx]
  exact ⟨_, h.step_sums hm hx hy hplace, State.value?_put_self hplace hal hflagged _⟩

end

theorem Has.compare_sets (h : l.Has s.pc ⟨.cmp, left :: right :: rest⟩) {m : Mnemonic}
    {rel : Int → Int → Bool} (hm : m.relation? = some rel)
    (hset : l.Has (s.pc + 1) ⟨m, .reg .al :: rest₁⟩)
    (hextend : l.Has (s.pc + 2) ⟨.movzb, .reg .rax :: .reg .al :: rest₂⟩)
    (hx : left.value? s = some x) (hy : right.value? s = some y) :
    ∃ τ, l.stepFor 3 s = .ok () τ ∧ τ.registers.rax = Word.ofBool (rel x.toInt y.toInt) := by
  have hpc : s.pc + 2 = s.pc + 1 + 1 := by omega
  rw [hpc] at hextend
  have hset' : l.Has (s.tick.flagged (x.toInt - y.toInt)).pc ⟨m, .reg .al :: rest₁⟩ := hset
  have hstep := hset'.step_ok (Exec.instr_sets hm l.labels rfl)
  obtain ⟨τ, hτ, hrax⟩ := Exec.instr_movzb_put l.labels rest₂
    (s.tick.flagged (x.toInt - y.toInt)).tick.tick (rel x.toInt y.toInt)
  have hextend' : l.Has ((s.tick.flagged (x.toInt - y.toInt)).tick.put (.reg .al)
      (Word.ofBool (rel x.toInt y.toInt))).pc ⟨.movzb, .reg .rax :: .reg .al :: rest₂⟩ := hextend
  refine ⟨τ, ?_, hrax⟩
  rw [stepFor_succ (h.step_cmp hx hy), stepFor_succ hstep, stepFor_succ (hextend'.step_ok hτ)]
  rfl

theorem Has.compare_jumps (h : l.Has s.pc ⟨.cmp, left :: right :: rest⟩) {name : String}
    {index : Int} (hjump : l.Has (s.pc + 1) ⟨.je, .label name :: rest₁⟩)
    (hname : l.labels.find? name = some index)
    (hx : left.value? s = some x) (hy : right.value? s = some y) :
    ∃ τ, l.stepFor 2 s = .ok () τ ∧
      τ.pc = if x.toInt = y.toInt then index else s.pc + 2 := by
  have hpc : s.pc + 2 = s.pc + 1 + 1 := by omega
  have hjump' : l.Has (s.tick.flagged (x.toInt - y.toInt)).pc ⟨.je, .label name :: rest₁⟩ := hjump
  have hstep := hjump'.step_ok (Exec.instr_je (x := x) (y := y) hname rfl)
  have hboth := (stepFor_succ (h.step_cmp hx hy) 1).trans (stepFor_succ hstep 0)
  rw [hpc]
  exact ⟨_, hboth, rfl⟩

/-- After a sum, a difference or a comparison of the values of two operands the flags tell the exact
result. Sums and differences are stored modulo `2 ^ 64`, and a comparison changes nothing else. What
follows a comparison is decided by the order of the values as signed numbers. -/
theorem flags_tell_result (l : Listing) (s : State) (left right : Operand) (rest : List Operand)
    {x y : Word} (hx : left.value? s = some x) (hy : right.value? s = some y) :
    (∀ m op, Mnemonic.Sums m op → l.Has s.pc ⟨m, left :: right :: rest⟩ →
      (endState (l.step s)).flags.Tell (op x.toInt y.toInt) ∧
      (left.isPlace = true → left ≠ .reg .al → ∃ τ w, l.step s = .ok () τ ∧
        left.value? τ = some w ∧ (w.toNat : Int) = op x.toInt y.toInt % 2 ^ 64)) ∧
    (l.Has s.pc ⟨.cmp, left :: right :: rest⟩ →
      (∃ τ, l.step s = .ok () τ ∧ τ.flags.Tell (x.toInt - y.toInt) ∧
        τ.registers = s.registers ∧ τ.memory = s.memory) ∧
      (∀ m rel rest₁ rest₂, Mnemonic.relation? m = some rel →
        l.Has (s.pc + 1) ⟨m, .reg .al :: rest₁⟩ →
        l.Has (s.pc + 2) ⟨.movzb, .reg .rax :: .reg .al :: rest₂⟩ →
        ∃ τ, l.stepFor 3 s = .ok () τ ∧
          τ.registers.rax = if rel x.toInt y.toInt then 1 else 0) ∧
      (∀ name index rest₁, l.Has (s.pc + 1) ⟨.je, .label name :: rest₁⟩ →
        l.labels.find? name = some index →
        ∃ τ, l.stepFor 2 s = .ok () τ ∧
          τ.pc = if x.toInt = y.toInt then index else s.pc + 2)) := by
  refine ⟨fun m op hm h => ⟨?_, fun hplace hal => ?_⟩, fun h => ⟨?_, ?_, ?_⟩⟩
  · rw [h.flags_sums hm hx hy]
    exact hm.tell x y
  · obtain ⟨τ, hτ, hstored⟩ := h.stores_sums hm hx hy hplace hal
    exact ⟨τ, _, hτ, hstored, Word.toNat_ofInt _⟩
  · exact ⟨_, h.step_cmp hx hy, Mnemonic.Sums.sub.tell x y, rfl, rfl⟩
  · intro m rel rest₁ rest₂ hm hset hextend
    exact h.compare_sets hm hset hextend hx hy
  · intro name index rest₁ hjump hname
    exact h.compare_jumps hjump hname hx hy

def ordering : Listing where
  instructions :=
    #[⟨⟨.cmp, [.reg .rax, .reg .rdi]⟩, 2, "cmp rax, rdi"⟩, ⟨⟨.setl, [.reg .al]⟩, 3, "setl al"⟩,
      ⟨⟨.movzb, [.reg .rax, .reg .al]⟩, 4, "movzb rax, al"⟩,
      ⟨⟨.sub, [.reg .rax, .reg .rdi]⟩, 5, "sub rax, rdi"⟩,
      ⟨⟨.cmp, [.reg .rax, .reg .rdi]⟩, 6, "cmp rax, rdi"⟩, ⟨⟨.je, [.label ".top"]⟩, 7, "je .top"⟩]
  labels := ⟨[(".top", 0)]⟩

/-- The least word in `rax` and one in `rdi`, so that their difference is out of range. -/
def orderedAt (pc : Int) : State where
  registers := { rax := BitVec.intMin 64, rdi := 1 }
  pc := pc

theorem flags_tell_result_ordering :
    (∃ τ w, ordering.step (orderedAt 3) = .ok () τ ∧ Operand.value? τ (.reg .rax) = some w ∧
        (w.toNat : Int) = (-2 ^ 63 - 1) % 2 ^ 64) ∧
      (endState (ordering.step (orderedAt 3))).flags.overflow = true ∧
      (∃ τ, ordering.stepFor 3 (orderedAt 0) = .ok () τ ∧ τ.registers.rax = 1) ∧
      ∃ τ, ordering.stepFor 2 (orderedAt 4) = .ok () τ ∧ τ.pc = 6 := by
  have htells := fun pc =>
    flags_tell_result ordering (orderedAt pc) (.reg .rax) (.reg .rdi) [] rfl rfl
  obtain ⟨hflags, hstored⟩ := (htells 3).1 .sub _ .sub ⟨_, rfl, rfl⟩
  refine ⟨hstored rfl (by decide), hflags.overflow.mpr (by decide), ?_, ?_⟩
  · obtain ⟨τ, hτ, hrax⟩ := ((htells 0).2 ⟨_, rfl, rfl⟩).2.1 .setl _ [] [] rfl ⟨_, rfl, rfl⟩
      ⟨_, rfl, rfl⟩
    exact ⟨τ, hτ, hrax.trans (by decide)⟩
  · obtain ⟨τ, hτ, hpc⟩ := ((htells 4).2 ⟨_, rfl, rfl⟩).2.2 ".top" 0 [] ⟨_, rfl, rfl⟩ (by decide)
    exact ⟨τ, hτ, hpc.trans (by decide)⟩

end Listing

end StackLang
