import StackLang.Proofs.Arithmetic
import StackLang.Proofs.Effects
import StackLang.Proofs.ListingShape
import StackLang.Proofs.Source

/-!
# Faults of a run

The machine looks up registers, operands and labels without a check of its own. In a listing that
was read all of them are there, so an instruction fails only for what it computes: an address that
is none, a division without a result, or a return to nowhere. It then leaves the state as it was,
but for a return, which has moved the stack pointer by that time.
-/

namespace StackLang

/-! ## Operands -/

namespace Operand

/-- The operand has a value in every state. -/
def Valued : Operand → Prop
  | .reg r => r ∈ Register.known
  | .imm _ => True
  | .mem base _ => base ∈ Register.known
  | .label _ => False

/-- The operand can be written in every state. -/
def Place : Operand → Prop
  | .reg r => r ∈ Register.known
  | .mem base _ => base ∈ Register.known
  | .imm _ | .label _ => False

theorem Place.valued {o : Operand} (h : o.Place) : o.Valued := by
  cases o with
  | reg r => exact h
  | mem base d => exact h
  | imm value => trivial
  | label name => exact h

theorem Readable.valued {m : Mnemonic} {o : Operand} (h : o.Readable m) (hm : m.isJump = false) :
    o.Valued := by
  cases o with
  | reg r => exact h.2
  | imm value => trivial
  | mem base d => exact h.2.1
  | label name => exact absurd (h.1.symm.trans hm) (by decide)

end Operand

namespace Instr.Readable

variable {m : Mnemonic} {ops : List Operand}

/-- A first operand is no number, except for `push`. -/
theorem place_of_head (h : Instr.Readable ⟨m, ops⟩) {o : Operand} {rest : List Operand}
    (hops : ops = o :: rest) (hjump : m.isJump = false) (hpush : m ≠ .push) : o.Place := by
  subst hops
  have hread := h.operand o List.mem_cons_self
  cases o with
  | reg r => exact hread.2
  | mem base d => exact hread.2.1
  | label name => exact absurd (hread.1.symm.trans hjump) (by decide)
  | imm value =>
      have hsound := h.sound
      unfold Listing.operandFault? at hsound
      split at hsound <;> cases hsound

theorem one (h : Instr.Readable ⟨m, ops⟩) (hm : m.operandCount = 1) : ∃ o, ops = [o] :=
  List.length_eq_one_iff.mp (h.count.trans hm)

theorem place (h : Instr.Readable ⟨m, ops⟩) (hm : m.operandCount = 1) (hjump : m.isJump = false)
    (hpush : m ≠ .push) : ∃ target, ops = [target] ∧ target.Place := by
  obtain ⟨target, hops⟩ := h.one hm
  exact ⟨target, hops, h.place_of_head hops hjump hpush⟩

theorem two (h : Instr.Readable ⟨m, ops⟩) (hm : m.operandCount = 2) (hjump : m.isJump = false)
    (hpush : m ≠ .push) :
    ∃ target source, ops = [target, source] ∧ target.Place ∧ source.Valued := by
  obtain ⟨target, source, hops⟩ := List.length_eq_two.mp (h.count.trans hm)
  refine ⟨target, source, hops, h.place_of_head hops hjump hpush, ?_⟩
  obtain rfl : ops = [target, source] := hops
  exact (h.operand source (by simp)).valued hjump

/-- A jump names a label. -/
theorem label (h : Instr.Readable ⟨m, ops⟩) (hm : m.operandCount = 1) (hjump : m.isJump = true) :
    ∃ name, ops = [.label name] := by
  obtain ⟨o, rfl⟩ := h.one hm
  have hread := h.operand o List.mem_cons_self
  cases o with
  | label name => exact ⟨name, rfl⟩
  | reg r => exact absurd (hread.1.symm.trans hjump) (by decide)
  | imm value => exact absurd (hread.1.symm.trans hjump) (by decide)
  | mem base d => exact absurd (hread.1.symm.trans hjump) (by decide)

end Instr.Readable

/-! ## Executions that succeed -/

namespace Exec

/-- The execution succeeds in every state. -/
def Total {α : Type} (x : Exec α) : Prop :=
  ∀ s, ∃ a τ, x s = .ok a τ

section

variable {α β : Type}

theorem total_pure (a : α) : Total (pure a) :=
  fun s => ⟨a, s, rfl⟩

theorem total_get : Total get :=
  fun s => ⟨s, s, rfl⟩

theorem total_modify (f : State → State) : Total (modify f) :=
  fun s => ⟨(), f s, rfl⟩

theorem total_pop : Total pop :=
  fun _ => ⟨_, _, rfl⟩

theorem Total.bind {x : Exec α} {f : α → Exec β} (hx : Total x) (hf : ∀ a, Total (f a)) :
    Total (x >>= f) := by
  intro s
  obtain ⟨a, τ, h⟩ := hx s
  rw [bind_ok h]
  exact hf a τ

end

theorem readRegister_of_read? {r : Register} {s : State} {w : Word}
    (h : s.registers.read? r = some w) : readRegister r s = .ok w s := by
  unfold readRegister
  rw [get_bind, h]
  rfl

theorem readRegister_unknown {r : Register} {s : State} (h : s.registers.read? r = none) :
    readRegister r s = .error (.unknownRegister r.name) s := by
  unfold readRegister
  rw [get_bind, h]
  rfl

theorem readRegister_known {r : Register} (h : r ∈ Register.known) (s : State) :
    ∃ w, readRegister r s = .ok w s := by
  cases r with
  | other name => simp [Register.known] at h
  | _ => exact ⟨_, rfl⟩

theorem address_known {base : Register} (h : base ∈ Register.known) (d : Int) (s : State) :
    ∃ w, address base d s = .ok w s := by
  obtain ⟨w, hw⟩ := readRegister_known h s
  exact ⟨w + Word.ofInt d, bind_ok hw _⟩

/-- Reading an operand changes nothing. -/
theorem readOperand_valued {o : Operand} (h : o.Valued) (s : State) :
    ∃ w, readOperand o s = .ok w s := by
  cases o with
  | reg r => exact readRegister_known h s
  | imm value => exact ⟨_, rfl⟩
  | mem base d =>
      obtain ⟨a, ha⟩ := address_known h d s
      exact ⟨s.memory.read a, bind_ok ha _⟩
  | label name => exact h.elim

theorem total_readOperand {o : Operand} (h : o.Valued) : Total (readOperand o) := by
  intro s
  obtain ⟨w, hw⟩ := readOperand_valued h s
  exact ⟨w, s, hw⟩

theorem total_address {base : Register} (h : base ∈ Register.known) (d : Int) :
    Total (address base d) := by
  intro s
  obtain ⟨w, hw⟩ := address_known h d s
  exact ⟨w, s, hw⟩

theorem total_writeOperand {o : Operand} (h : o.Place) (w : Word) : Total (writeOperand o w) := by
  cases o with
  | reg r => exact total_modify _
  | mem base d => exact (total_address h d).bind fun _ => total_modify _
  | imm value => exact h.elim
  | label name => exact h.elim

theorem total_arithmetic {left right : Operand} (hleft : left.Valued) (hright : right.Valued)
    (operation : Int → Int → Int) : Total (arithmetic operation left right) :=
  (total_readOperand hleft).bind fun _ => (total_readOperand hright).bind fun _ =>
    (total_modify _).bind fun _ => total_pure _

theorem total_multiply {left right : Operand} (hleft : left.Place) (hright : right.Valued) :
    Total (multiply left right) :=
  (total_readOperand hleft.valued).bind fun _ => (total_readOperand hright).bind fun _ =>
    (total_writeOperand hleft _).bind fun _ => total_modify _

theorem total_setIf {o : Operand} (h : o.Place) (condition : Flags → Bool) :
    Total (setIf o condition) :=
  total_get.bind fun _ => total_writeOperand h _

theorem total_jump {labels : LabelTable} {name : String} {index : Int}
    (h : labels.find? name = some index) : Total (jump labels (.label name)) := by
  unfold jump
  simp only [h]
  exact total_modify _

end Exec

/-! ## Instructions that fail -/

/-- The quotient of `rdx:rax` by a divisor. -/
def State.quotientBy (s : State) (divisor : Word) : Int :=
  s.dividend.tdiv divisor.toInt

/-- The instruction fails in state `s`: for which cause, and what state it leaves. -/
inductive InstrFault (s : State) : Instr → FaultCause → State → Prop where
  | addressSource {target source : Operand} : source.isMem = false →
      InstrFault s ⟨.lea, [target, source]⟩ .addressSource s
  | divisionByZero {source : Operand} : Exec.readOperand source s = .ok 0 s →
      InstrFault s ⟨.idiv, [source]⟩ .divisionByZero s
  | quotientRange {source : Operand} {y : Word} : Exec.readOperand source s = .ok y s → y ≠ 0 →
      (Word.ofInt (s.quotientBy y)).toInt ≠ s.quotientBy y →
      InstrFault s ⟨.idiv, [source]⟩ .quotientRange s
  | returnAddress : s.memory.read s.registers.rsp ≠ Exec.haltAddress →
      InstrFault s ⟨.ret, []⟩ (.returnAddress (s.memory.read s.registers.rsp).toNat)
        { s with registers := { s.registers with rsp := s.registers.rsp + 8 } }

theorem InstrFault.reported {s τ : State} {i : Instr} {cause : FaultCause}
    (h : InstrFault s i cause τ) (p : Option PlacedInstr) (filename : String) :
    ∃ d, Fault.diagnostic? ⟨cause, p⟩ filename = some d ∧
      (d.category = .division ∨ d.category = .execution) := by
  cases h with
  | addressSource => exact ⟨_, rfl, Or.inr rfl⟩
  | divisionByZero => exact ⟨_, rfl, Or.inl rfl⟩
  | quotientRange => exact ⟨_, rfl, Or.inl rfl⟩
  | returnAddress => exact ⟨_, rfl, Or.inr rfl⟩

namespace Exec

variable {labels : LabelTable} {i : Instr} {s : State}

/-- The instruction succeeds, or fails in one of the ways described above. -/
def Answers (labels : LabelTable) (i : Instr) (s : State) : Prop :=
  (∃ τ, instr labels i s = .ok () τ) ∨
    ∃ cause τ, instr labels i s = .error cause τ ∧ InstrFault s i cause τ

theorem Total.answers (h : Total (instr labels i)) : Answers labels i s := by
  obtain ⟨_, τ, hτ⟩ := h s
  exact Or.inl ⟨τ, hτ⟩

theorem divide_cases (y : Word) (s : State) :
    (∃ τ, divide y s = .ok () τ) ∨
      (y = 0 ∧ divide y s = .error .divisionByZero s) ∨
      y ≠ 0 ∧ (Word.ofInt (s.quotientBy y)).toInt ≠ s.quotientBy y ∧
        divide y s = .error .quotientRange s := by
  by_cases hy : y = 0
  · exact Or.inr (Or.inl ⟨hy, hy ▸ divide_zero s⟩)
  · have hne : y.toInt ≠ 0 := by simpa [← BitVec.toInt_inj] using hy
    rw [divide_by, if_neg hne]
    split
    · exact Or.inl ⟨_, rfl⟩
    · next hrange => exact Or.inr (Or.inr ⟨hy, mt Word.toInt_ofInt_eq_iff.mp hrange, rfl⟩)

theorem answers_idiv {source : Operand} (h : source.Valued) :
    Answers labels ⟨.idiv, [source]⟩ s := by
  obtain ⟨y, hy⟩ := readOperand_valued h s
  have hinstr : instr labels ⟨.idiv, [source]⟩ s = divide y s := bind_ok hy divide
  unfold Answers
  rw [hinstr]
  rcases divide_cases y s with ⟨τ, hτ⟩ | ⟨rfl, hzero⟩ | ⟨hne, hrange, hfault⟩
  · exact Or.inl ⟨τ, hτ⟩
  · exact Or.inr ⟨_, _, hzero, .divisionByZero hy⟩
  · exact Or.inr ⟨_, _, hfault, .quotientRange hy hne hrange⟩

theorem answers_ret : Answers labels ⟨.ret, []⟩ s := by
  have hinstr : instr labels ⟨.ret, []⟩ s = (pop >>= fun address =>
      if address = haltAddress then modify fun s => { s with halted := true }
      else throw (.returnAddress address.toNat) : Exec Unit) s := rfl
  unfold Answers
  rw [hinstr, pop_bind]
  by_cases haddress : s.memory.read s.registers.rsp = haltAddress
  · rw [if_pos haddress]
    exact Or.inl ⟨_, rfl⟩
  · rw [if_neg haddress]
    exact Or.inr ⟨_, _, rfl, .returnAddress haddress⟩

theorem answers_lea {target source : Operand} (htarget : target.Place) (hsource : source.Valued) :
    Answers labels ⟨.lea, [target, source]⟩ s := by
  cases source with
  | mem base d =>
      exact Total.answers ((total_address hsource d).bind fun _ => total_writeOperand htarget _)
  | reg r => exact Or.inr ⟨_, _, rfl, .addressSource rfl⟩
  | imm value => exact Or.inr ⟨_, _, rfl, .addressSource rfl⟩
  | label name => exact hsource.elim

/-- An instruction that was read never fails for want of an operand, a register or a label. -/
theorem answers_of_readable (hi : i.Readable)
    (htarget : ∀ name, i.target? = some name → ∃ index, labels.find? name = some index)
    (s : State) : Answers labels i s := by
  obtain ⟨m, ops⟩ := i
  cases m with
  | push =>
      obtain ⟨source, rfl⟩ := hi.one rfl
      have hsource := (hi.operand source List.mem_cons_self).valued rfl
      exact Total.answers ((total_readOperand hsource).bind fun _ => total_modify _)
  | pop =>
      obtain ⟨target, rfl, hplace⟩ := hi.place rfl rfl (by decide)
      exact Total.answers (total_pop.bind fun _ => total_writeOperand hplace _)
  | mov =>
      obtain ⟨target, source, rfl, hplace, hsource⟩ := hi.two rfl rfl (by decide)
      exact Total.answers ((total_readOperand hsource).bind fun _ => total_writeOperand hplace _)
  | lea =>
      obtain ⟨target, source, rfl, hplace, hsource⟩ := hi.two rfl rfl (by decide)
      exact answers_lea hplace hsource
  | add =>
      obtain ⟨target, source, rfl, hplace, hsource⟩ := hi.two rfl rfl (by decide)
      exact Total.answers ((total_arithmetic hplace.valued hsource _).bind fun _ =>
        total_writeOperand hplace _)
  | sub =>
      obtain ⟨target, source, rfl, hplace, hsource⟩ := hi.two rfl rfl (by decide)
      exact Total.answers ((total_arithmetic hplace.valued hsource _).bind fun _ =>
        total_writeOperand hplace _)
  | imul =>
      obtain ⟨target, source, rfl, hplace, hsource⟩ := hi.two rfl rfl (by decide)
      exact Total.answers (total_multiply hplace hsource)
  | cqo => exact Total.answers (total_modify _)
  | idiv =>
      obtain ⟨source, rfl, hplace⟩ := hi.place rfl rfl (by decide)
      exact answers_idiv hplace.valued
  | cmp =>
      obtain ⟨target, source, rfl, hplace, hsource⟩ := hi.two rfl rfl (by decide)
      exact Total.answers ((total_arithmetic hplace.valued hsource _).bind fun _ => total_pure _)
  | sete =>
      obtain ⟨target, rfl, hplace⟩ := hi.place rfl rfl (by decide)
      exact Total.answers (total_setIf hplace fun f => f.zero)
  | setne =>
      obtain ⟨target, rfl, hplace⟩ := hi.place rfl rfl (by decide)
      exact Total.answers (total_setIf hplace fun f => !f.zero)
  | setl =>
      obtain ⟨target, rfl, hplace⟩ := hi.place rfl rfl (by decide)
      exact Total.answers (total_setIf hplace fun f => f.sign != f.overflow)
  | setle =>
      obtain ⟨target, rfl, hplace⟩ := hi.place rfl rfl (by decide)
      exact Total.answers (total_setIf hplace fun f => f.zero || f.sign != f.overflow)
  | movzb =>
      obtain ⟨target, source, rfl, hplace, hsource⟩ := hi.two rfl rfl (by decide)
      exact Total.answers ((total_readOperand hsource).bind fun _ => total_writeOperand hplace _)
  | jmp =>
      obtain ⟨name, rfl⟩ := hi.label rfl rfl
      obtain ⟨index, hindex⟩ := htarget name rfl
      exact Total.answers (total_jump hindex)
  | je =>
      obtain ⟨name, rfl⟩ := hi.label rfl rfl
      obtain ⟨index, hindex⟩ := htarget name rfl
      refine Total.answers (total_get.bind fun σ => ?_)
      split
      · exact total_jump hindex
      · exact total_pure _
  | ret =>
      obtain rfl := List.length_eq_zero_iff.mp hi.count
      exact answers_ret
  | other name => exact absurd hi.known (by simp [Mnemonic.known])

end Exec

/-! ## Runs -/

namespace Listing

variable {l : Listing} {σ τ : State}

/-- The program counter is at an instruction or right after the last one. -/
def InBounds (l : Listing) (σ : State) : Prop :=
  0 ≤ σ.pc ∧ σ.pc ≤ l.instructions.size

theorem Regular.steady_inBounds (hl : l.Regular) :
    Exec.Steady l.labels (fun _ => True) l.InBounds where
  rax := trivial
  rdx := trivial
  rsp := trivial
  register := fun _ _ _ _ hs => hs
  memory := fun _ _ hs => hs
  flags := fun _ _ hs => hs
  jump := fun _ name index hname _ => hl.label name index hname
  halt := fun _ hs => hs

theorem fetch?_eq_none_iff (hσ : l.InBounds σ) :
    l.fetch? σ.pc = none ↔ σ.pc = l.instructions.size := by
  obtain ⟨hnonneg, hle⟩ := hσ
  rw [fetch?, if_pos hnonneg, Array.getElem?_eq_none_iff]
  omega

theorem mem_of_fetch? {pc : Int} {p : PlacedInstr} (h : l.fetch? pc = some p) :
    p ∈ l.instructions := by
  unfold fetch? at h
  split at h
  · exact Array.mem_of_getElem? h
  · split at h
    · exact Array.mem_of_getElem? h
    · cases h

/-- A step leaves the program counter in bounds, also if it fails. -/
theorem Regular.step_inBounds (hl : l.Regular) (hσ : l.InBounds σ) :
    l.InBounds (endState (l.step σ)) := by
  by_cases hpc : σ.pc = l.instructions.size
  · rw [step_eq, (fetch?_eq_none_iff hσ).mpr hpc]
    exact hσ
  · have hnext : l.InBounds σ.tick := by
      obtain ⟨hnonneg, hle⟩ := hσ
      simp only [InBounds, State.tick]
      omega
    rcases step_maintains hl.steady_inBounds (fun _ _ _ _ => trivial) hnext with hkept | hkept
    · exact hkept
    · rw [hkept]
      exact hσ

/-- Where there is an instruction, it is executed or fails in one of the ways described above. -/
theorem WellFormed.step_answers (hl : l.WellFormed) (hσ : l.InBounds σ) (hready : l.Ready σ) :
    (∃ τ, l.step σ = .ok () τ) ∨
      ∃ p cause τ, l.fetch? σ.pc = some p ∧ l.step σ = .error ⟨cause, some p⟩ τ ∧
        InstrFault σ.tick p.instr cause τ := by
  cases hfetch : l.fetch? σ.pc with
  | none => exact absurd ((fetch?_eq_none_iff hσ).mp hfetch) hready.2.ne
  | some p =>
      have hp := mem_of_fetch? hfetch
      rcases Exec.answers_of_readable (hl.readable p hp) (hl.target p hp) σ.tick with
        ⟨τ, hτ⟩ | ⟨cause, τ, hτ, hfault⟩
      · exact Or.inl ⟨τ, step_ok hfetch hτ⟩
      · exact Or.inr ⟨p, cause, τ, rfl, step_error hfetch hτ, hfault⟩

/-- The state after `n` steps of a run. -/
def Reaches (l : Listing) (config : MachineConfig) (entry : Option String) (n : Nat) (σ : State) :
    Prop :=
  ∃ pc, l.labels.find? (l.startLabel entry) = some pc ∧
    l.Moves (fun _ => True) n (startState config pc) σ

theorem Reaches.inBounds (hl : l.Regular) {config : MachineConfig} {entry : Option String} {n : Nat}
    (h : l.Reaches config entry n σ) : l.InBounds σ := by
  obtain ⟨pc, hpc, hmoves⟩ := h
  have hstart : l.InBounds (startState config pc) := hl.label _ pc hpc
  refine hmoves.keeps (fun σ τ _ hstep hσ => ?_) hstart
  have hbounds := hl.step_inBounds hσ
  rw [hstep] at hbounds
  exact hbounds

/-- How a run fails, and what state it leaves: its label is not defined and nothing was done, it has
no more steps to go, it ran past the last instruction, or an instruction failed. -/
inductive RunFault (l : Listing) (config : MachineConfig) (entry : Option String) (s : State) :
    Fault → State → Prop where
  | undefinedEntry : l.labels.find? (l.startLabel entry) = none →
      RunFault l config entry s ⟨.undefinedEntry (l.startLabel entry), none⟩ s
  | stepLimit {τ : State} : l.Reaches config entry config.maxSteps τ → τ.halted = false →
      RunFault l config entry s ⟨.stepLimit config.maxSteps, none⟩ τ
  | ranPastEnd {n : Nat} {τ : State} : n < config.maxSteps → l.Reaches config entry n τ →
      τ.halted = false → τ.pc = l.instructions.size →
      RunFault l config entry s ⟨.ranPastEnd (l.startLabel entry), none⟩ τ
  | instr {n : Nat} {σ : State} {p : PlacedInstr} {cause : FaultCause} {τ : State} :
      n < config.maxSteps → l.Reaches config entry n σ → l.fetch? σ.pc = some p →
      InstrFault σ.tick p.instr cause τ → RunFault l config entry s ⟨cause, some p⟩ τ

variable {config : MachineConfig} {entry : Option String} {s : State} {fault : Fault}

/-- Every fault of a run has a report, which is about the label it starts at only if that label is
not defined. -/
theorem RunFault.exists_report (h : l.RunFault config entry s fault τ) (filename : String) :
    ∃ d, fault.diagnostic? filename = some d ∧
      (d.category ∈ [.stepLimit config.maxSteps, .division, .execution] ∨
        l.labels.find? (l.startLabel entry) = none ∧
          d.category = .undefinedLabel (l.startLabel entry)) := by
  cases h with
  | undefinedEntry hnone => exact ⟨_, rfl, Or.inr ⟨hnone, rfl⟩⟩
  | stepLimit => exact ⟨_, rfl, Or.inl (by simp [Diagnostic.stepLimit])⟩
  | ranPastEnd => exact ⟨_, rfl, Or.inl (by simp)⟩
  | instr _ _ _ hfault =>
      obtain ⟨d, hd, hcategory⟩ := hfault.reported _ filename
      exact ⟨d, hd, Or.inl (by simp [hcategory])⟩

theorem RunFault.reported (h : l.RunFault config entry s fault τ) (filename : String) :
    ∃ d, fault.diagnostic? filename = some d ∧
      d.category ∈ [.undefinedLabel (l.startLabel entry), .stepLimit config.maxSteps, .division,
        .execution] := by
  obtain ⟨d, hd, hcategory⟩ := h.exists_report filename
  refine ⟨d, hd, List.mem_cons.mpr ?_⟩
  exact hcategory.symm.imp_left And.right

theorem WellFormed.run_cases (hl : l.WellFormed) (config : MachineConfig) (entry : Option String)
    (s : State) :
    (∃ τ, l.run config entry s = .ok τ.result τ ∧ τ.halted = true) ∨
      ∃ fault τ, l.run config entry s = .error fault τ ∧ l.RunFault config entry s fault τ := by
  cases hpc : l.labels.find? (l.startLabel entry) with
  | none => exact Or.inr ⟨_, _, run_of_undefined hpc s, .undefinedEntry hpc⟩
  | some pc =>
      have hends := l.runFor_ends (l.startLabel entry) config.maxSteps config.maxSteps
        (startState config pc)
      rw [run_of_defined hpc]
      generalize l.runFor _ _ _ _ = result at hends ⊢
      cases hends with
      | halted _ _ hτ => exact Or.inl ⟨_, rfl, hτ⟩
      | stepLimit hm hτ => exact Or.inr ⟨_, _, rfl, .stepLimit ⟨pc, hpc, hm⟩ hτ⟩
      | ranPastEnd hn hm hτ hend =>
          have hreach : l.Reaches config entry _ _ := ⟨pc, hpc, hm⟩
          have hbounds := hreach.inBounds hl.toRegular
          exact Or.inr ⟨_, _, rfl, .ranPastEnd hn hreach hτ (le_antisymm hbounds.2 hend)⟩
      | fails hn hm hready hfail =>
          have hreach : l.Reaches config entry _ _ := ⟨pc, hpc, hm⟩
          rcases hl.step_answers (hreach.inBounds hl.toRegular) hready with
            ⟨τ, hτ⟩ | ⟨p, cause, τ, hfetch, hτ, hfault⟩
          · rw [hfail] at hτ
            cases hτ
          · rw [hfail] at hτ
            cases hτ
            exact Or.inr ⟨_, _, rfl, .instr hn hreach hfetch hfault⟩

/-- Every run of a listing that was read halts or fails in one of the ways that `RunFault` lists,
none of which is a name or a place that is not there. -/
theorem run_halts_or_faults {text filename : String} {l : Listing}
    (hl : read text filename = .ok l) (config : MachineConfig) (entry : Option String) (s : State) :
    (∃ τ, l.run config entry s = .ok τ.result τ ∧ τ.halted = true) ∨
      ∃ fault τ, l.run config entry s = .error fault τ ∧ l.RunFault config entry s fault τ ∧
        ∃ d, fault.diagnostic? l.filename = some d ∧
          d.category ∈ [.undefinedLabel (l.startLabel entry), .stepLimit config.maxSteps,
            .division, .execution] := by
  rcases (read_wellFormed hl).run_cases config entry s with hhalted | ⟨fault, τ, hrun, hfault⟩
  · exact Or.inl hhalted
  · exact Or.inr ⟨fault, τ, hrun, hfault, hfault.reported l.filename⟩

/-- Counts down in a loop, then returns to the number it pushed. -/
def strayReturn : String :=
  ".globl f\nf: mov rax, 2\n.top: sub rax, 1\ncmp rax, 0\nje .out\njmp .top\n.out: push 7\nret\n"

theorem run_halts_or_faults_strayReturn :
    ∃ l fault τ, read strayReturn = .ok l ∧ l.run {} none {} = .error fault τ ∧
      l.RunFault {} none {} fault τ ∧ fault.cause = .returnAddress 7 := by
  have hcheck : ((read strayReturn).toOption.any fun l =>
      match l.run {} none {} with
      | .error fault _ => fault.cause = .returnAddress 7
      | .ok _ _ => false) = true := by
    decide +kernel
  obtain ⟨l, hl, hcheck⟩ := exists_ok_of_any hcheck
  rcases run_halts_or_faults hl {} none {} with ⟨τ, hrun, -⟩ | ⟨fault, τ, hrun, hfault, -⟩
  · rw [hrun] at hcheck
    cases hcheck
  · rw [hrun] at hcheck
    exact ⟨l, fault, τ, hl, hrun, hfault, of_decide_eq_true hcheck⟩

end Listing

end StackLang
