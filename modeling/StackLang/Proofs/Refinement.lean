import StackLang.Proofs.Representation

/-!
# The machine on words as a refinement

The machine on words does what the machine on unbounded integers does: every instruction, run and
session gives the same answers and faults on both. What is known of the masks and what is known of
the words thereby holds of the same states.
-/

namespace StackLang

/-! ## The machine on words as a program

What the machine on words does at once, in the steps that the other machine takes. -/

theorem Register.name_ofName (name : String) : (ofName name).name = name := by
  unfold ofName
  cases h : ofName? name with
  | none => rfl
  | some r => exact eq_of_beq (List.find?_some (p := fun r : Register => r.name == name) h)

namespace Exec

theorem push_do (w : Word) :
    push w = (do
      let top ← readRegister .rsp
      writeRegister .rsp (top - 8)
      let top ← readRegister .rsp
      writeMemory top w) :=
  rfl

theorem pop_do :
    pop = (do
      let top ← readRegister .rsp
      let value ← readMemory top
      let top ← readRegister .rsp
      writeRegister .rsp (top + 8)
      return value) :=
  rfl

theorem divide_do (w : Word) :
    divide w = (do
      let divisor := w.toInt
      if divisor = 0 then throw .divisionByZero
      let high ← readRegister .rdx
      let low ← readRegister .rax
      let dividend := Bits.joined high.toInt low.toNat
      let quotient := Bits.quotient dividend divisor
      if Bits.toSigned quotient ≠ quotient then throw .quotientRange
      writeRegister .rax (Word.ofInt quotient)
      writeRegister .rdx (Word.ofInt (Bits.remainder dividend divisor))) := by
  rfl

theorem result_do :
    (return (← get).result : Exec RunResult) = (do
      let x ← readRegister .rax
      let t ← get
      return ⟨x.toInt, x.lowByte.toNat, t.steps⟩) :=
  rfl

end Exec

namespace Listing

theorem step_do (l : Listing) :
    l.step = (do
      match l.fetch? (← get).pc with
      | none => throw ⟨.noInstruction, none⟩
      | some i =>
        modify fun s => { s with pc := s.pc + 1, steps := s.steps + 1 }
        Unbounded.during (some i) (Exec.instr l.labels i.instr) :
      EStateM Fault State Unit) := by
  funext t
  change l.step t = (match l.fetch? t.pc with
    | none => throw ⟨.noInstruction, none⟩
    | some i => (modify fun s => { s with pc := s.pc + 1, steps := s.steps + 1 }) >>= fun _ =>
        Unbounded.during (some i) (Exec.instr l.labels i.instr) : EStateM Fault State Unit) t
  rw [step_eq]
  cases l.fetch? t.pc with
  | none => rfl
  | some i =>
      change _ = Unbounded.during (some i) (Exec.instr l.labels i.instr) t.tick
      unfold Unbounded.during
      dsimp only
      cases Exec.instr l.labels i.instr t.tick <;> rfl

theorem runFor_zero_do (l : Listing) (entry : String) (limit : Nat) :
    l.runFor entry limit 0 = (do
      if (← get).halted then return ()
      else throw ⟨.stepLimit limit, none⟩ : EStateM Fault State Unit) := by
  funext t
  change (if t.halted then _ else _) =
    (if t.halted then _ else _ : EStateM Fault State Unit) t
  split <;> rfl

theorem runFor_succ_do (l : Listing) (entry : String) (limit remaining : Nat) :
    l.runFor entry limit (remaining + 1) = (do
      if (← get).halted then return ()
      else if l.instructions.size ≤ (← get).pc then throw ⟨.ranPastEnd entry, none⟩
      else do
        l.step
        l.runFor entry limit remaining : EStateM Fault State Unit) := by
  funext t
  rw [runFor]
  change _ = (if t.halted then _ else _ : EStateM Fault State Unit) t
  split
  · rfl
  · change _ = (if l.instructions.size ≤ t.pc then _ else _ : EStateM Fault State Unit) t
    split
    · rfl
    · change _ = EStateM.bind l.step (fun _ => l.runFor entry limit remaining) t
      unfold EStateM.bind
      cases l.step t <;> rfl

theorem run_do {l : Listing} {config : MachineConfig} {entry : Option String} {pc : Int}
    (hpc : l.labels.find? (l.startLabel entry) = some pc) :
    l.run config entry = (do
      set (startState config pc)
      l.runFor (l.startLabel entry) config.maxSteps config.maxSteps
      Unbounded.during none (return (← get).result) : EStateM Fault State RunResult) := by
  funext t
  rw [run_of_defined hpc]
  change _ = EStateM.bind (l.runFor _ _ _) _ (startState config pc)
  unfold EStateM.bind
  cases l.runFor (l.startLabel entry) config.maxSteps config.maxSteps
    (startState config pc) <;> rfl

end Listing

namespace Machine

/-- An action as an execution. -/
def act (m : Machine) : Action → EStateM Fault State Reply
  | .step => do
    m.listing.step
    return .none
  | .run entry => do return .result (← m.listing.run m.config entry)
  | .reset => do
    set ({} : State)
    return .none
  | .readRegister name => do
    return .number (← Unbounded.during none (Exec.readRegister (.ofName name))).toNat
  | .writeRegister name value => do
    Unbounded.during none (Exec.writeRegister (.ofName name) (Word.ofInt value))
    return .none
  | .readMemory address => do
    return .number (← Unbounded.during none (Exec.readMemory (Word.ofInt address))).toNat
  | .writeMemory address value => do
    Unbounded.during none (Exec.writeMemory (Word.ofInt address) (Word.ofInt value))
    return .none
  | .setPc pc => do
    modify fun s => { s with pc := pc }
    return .none
  | .setFlags flags => do
    modify fun s => { s with flags := flags }
    return .none
  | .toSigned value => return .number (Word.ofInt value).toInt

/-- The answer to an action, and the machine after it. -/
def after (m : Machine) : EStateM.Result Fault State Reply → Except Fault Reply × Machine
  | .ok reply s => (.ok reply, m.withState s)
  | .error fault s => (.error fault, m.withState s)

theorem perform_do (m : Machine) (a : Action) : m.perform a = m.after (m.act a m.state) := by
  cases a with
  | step =>
      change _ = m.after (EStateM.bind m.listing.step (fun _ => pure Reply.none) m.state)
      unfold perform EStateM.bind
      dsimp only
      cases m.listing.step m.state <;> rfl
  | run entry =>
      change _ = m.after (EStateM.bind (m.listing.run m.config entry)
        (fun r => pure (Reply.result r)) m.state)
      unfold perform EStateM.bind
      dsimp only
      cases m.listing.run m.config entry m.state <;> rfl
  | readRegister name =>
      change _ = m.after (EStateM.bind (Unbounded.during none (Exec.readRegister (.ofName name)))
        (fun w => pure (Reply.number w.toNat)) m.state)
      unfold perform EStateM.bind Unbounded.during
      dsimp only
      cases hread : m.state.registers.read? (.ofName name) with
      | none =>
          rw [Exec.readRegister_unknown hread, Register.name_ofName]
          rfl
      | some w =>
          rw [Exec.readRegister_of_read? hread]
          rfl
  | _ => rfl

end Machine

namespace Unbounded

open Bits

/-! ## Instructions -/

theorem name_ne_al {reg : Register} (hreg : reg.Settled) (hal : reg ≠ .al) : reg.name ≠ "al" := by
  cases reg with
  | al => exact absurd rfl hal
  | other name =>
      rintro (rfl : name = "al")
      exact absurd (hreg "al" rfl) (by decide)
  | _ => decide

namespace Exec

variable {reg : Register} {n m : Int} {v w : Word}

theorem fetch_simulates (hreg : reg.Settled) (hal : reg ≠ .al) :
    Simulates Exact (fetch reg.name) (StackLang.Exec.readRegister reg) := by
  refine simulates_get.bind fun s t hst => ?_
  rw [hst.registers, Registers.get?_numbers hreg hal]
  cases t.registers.read? reg with
  | none => exact simulates_throw _
  | some w => exact simulates_pure rfl

theorem store_simulates (hreg : reg.Settled) (hal : reg ≠ .al) (h : Exact n w) :
    Simulates Eq (store reg.name n) (StackLang.Exec.writeRegister reg w) :=
  simulates_modify fun _ _ hst => hst.store hreg hal h

theorem fetch_rax : Simulates Exact (fetch "rax") (StackLang.Exec.readRegister .rax) :=
  fetch_simulates Register.settled_rax (by decide)

theorem fetch_rdx : Simulates Exact (fetch "rdx") (StackLang.Exec.readRegister .rdx) :=
  fetch_simulates Register.settled_rdx (by decide)

theorem fetch_rsp : Simulates Exact (fetch "rsp") (StackLang.Exec.readRegister .rsp) :=
  fetch_simulates Register.settled_rsp (by decide)

theorem store_rax (h : Exact n w) :
    Simulates Eq (store "rax" n) (StackLang.Exec.writeRegister .rax w) :=
  store_simulates Register.settled_rax (by decide) h

theorem store_rdx (h : Exact n w) :
    Simulates Eq (store "rdx" n) (StackLang.Exec.writeRegister .rdx w) :=
  store_simulates Register.settled_rdx (by decide) h

theorem store_rsp (h : Exact n w) :
    Simulates Eq (store "rsp" n) (StackLang.Exec.writeRegister .rsp w) :=
  store_simulates Register.settled_rsp (by decide) h

theorem readRegister_simulates (hreg : reg.Settled) :
    Simulates Exact (readRegister reg.name) (StackLang.Exec.readRegister reg) := by
  unfold readRegister
  by_cases hal : reg = .al
  · subst hal
    refine fetch_rax.bind (g := fun x => pure x.lowByte) fun n w h => simulates_pure ?_
    rw [Exact, ← h.modular]
    exact Word.lowByte_ofInt_toNat n
  · rw [if_neg (name_ne_al hreg hal)]
    exact fetch_simulates hreg hal

theorem writeRegister_simulates (hreg : reg.Settled) (h : Modular n w) :
    Simulates Eq (writeRegister reg.name n) (StackLang.Exec.writeRegister reg w) := by
  unfold writeRegister
  by_cases hal : reg = .al
  · subst hal
    refine fetch_rax.bind (g := fun x => StackLang.Exec.writeRegister .rax (x.withLowByte w))
      fun m v hv => store_rax ?_
    rw [Exact, hv, ← h]
    exact Word.withLowByte_toNat v n
  · rw [if_neg (name_ne_al hreg hal)]
    exact store_simulates hreg hal h.exact

theorem readMemory_simulates (h : Modular n w) :
    Simulates Exact (readMemory n) (StackLang.Exec.readMemory w) :=
  simulates_get.bind fun _ _ hst => simulates_pure (hst.read h.exact)

theorem writeMemory_simulates (hn : Modular n v) (hm : Modular m w) :
    Simulates Eq (writeMemory n m) (StackLang.Exec.writeMemory v w) :=
  simulates_modify fun _ _ hst => hst.insert hn.exact hm.exact

theorem address_simulates (hreg : reg.Settled) (d : Int) :
    Simulates Exact (address reg d) (StackLang.Exec.address reg d) :=
  (readRegister_simulates hreg).bind fun _ _ h => simulates_pure (h.modular.add rfl).exact

variable {o o' : Operand}

theorem readOperand_simulates (ho : o.Settled) :
    Simulates Exact (readOperand o) (StackLang.Exec.readOperand o) := by
  cases o with
  | reg r => exact readRegister_simulates ho
  | imm value => exact simulates_pure (Modular.exact rfl)
  | mem base d =>
      exact (address_simulates ho d).bind fun _ _ h => readMemory_simulates h.modular
  | label name => exact simulates_throw _

theorem writeOperand_simulates (ho : o.Settled) (h : Modular n w) :
    Simulates Eq (writeOperand o n) (StackLang.Exec.writeOperand o w) := by
  cases o with
  | reg r => exact writeRegister_simulates ho h
  | mem base d =>
      exact (address_simulates ho d).bind fun _ _ ha => writeMemory_simulates ha.modular h
  | imm value => exact simulates_throw _
  | label name => exact simulates_throw _

theorem push_simulates (h : Modular n w) : Simulates Eq (push n) (StackLang.Exec.push w) := by
  rw [StackLang.Exec.push_do]
  exact fetch_rsp.bind fun _ _ htop => (store_rsp (htop.modular.sub rfl).exact).bind fun _ _ _ =>
    fetch_rsp.bind fun _ _ ha => writeMemory_simulates ha.modular h

theorem pop_simulates : Simulates Exact pop StackLang.Exec.pop := by
  rw [StackLang.Exec.pop_do]
  exact fetch_rsp.bind fun _ _ ha => (readMemory_simulates ha.modular).bind fun _ _ hvalue =>
    fetch_rsp.bind fun _ _ htop => (store_rsp (htop.modular.add rfl).exact).bind fun _ _ _ =>
      simulates_pure hvalue

theorem flags_of_result (n : Int) :
    (⟨Bits.and n mask64 == 0, Bits.and (Bits.and n mask64) signBit != 0, toSigned n != n⟩ : Flags) =
      .ofResult n := by
  have hexact : Exact (Bits.and n mask64) (Word.ofInt n) := Modular.exact rfl
  have hzero : (Bits.and n mask64 == 0) = (Word.ofInt n == 0) := by
    rw [hexact, Bool.eq_iff_iff, beq_iff_eq, beq_iff_eq, Int.natCast_eq_zero]
    exact BitVec.toNat_eq_nat.trans (by simp)
  have hsign : (Bits.and (Bits.and n mask64) signBit != 0) = (Word.ofInt n).msb := by
    rw [Bool.eq_iff_iff, bne_iff_ne, hexact.signBit_iff]
  rw [hzero, hsign, toSigned_eq]
  rfl

theorem arithmetic_simulates (operation : Int → Int → Int) (ho : o.Settled) (ho' : o'.Settled) :
    Simulates Modular (arithmetic operation o o') (StackLang.Exec.arithmetic operation o o') := by
  refine (readOperand_simulates ho).bind fun x v hx =>
    (readOperand_simulates ho').bind fun y w hy => ?_
  rw [hx.modular.toSigned_eq, hy.modular.toSigned_eq]
  refine (simulates_modify fun s t hst => ?_).bind fun _ _ _ => simulates_pure rfl
  exact { hst with flags := flags_of_result _ }

theorem multiply_simulates (ho : o.Settled) (ho' : o'.Settled) :
    Simulates Eq (multiply o o') (StackLang.Exec.multiply o o') := by
  refine (readOperand_simulates ho).bind fun x v hx =>
    (readOperand_simulates ho').bind fun y w hy => ?_
  rw [hx.modular.toSigned_eq, hy.modular.toSigned_eq]
  refine (writeOperand_simulates ho rfl).bind fun _ _ _ => simulates_modify fun s t hst => ?_
  refine { hst with flags := ?_ }
  rw [hst.flags, Bits.toSigned_eq]

theorem extendSign_simulates : Simulates Eq extendSign StackLang.Exec.extendSign := by
  refine fetch_rax.bind
    (g := fun x => StackLang.Exec.writeRegister .rdx (if x.msb then -1 else 0))
    fun n w h => store_rdx ?_
  simp only [h.signBit_iff]
  split <;> rfl

theorem divide_simulates (h : Modular n w) : Simulates Eq (divide n) (StackLang.Exec.divide w) := by
  rw [StackLang.Exec.divide_do]
  unfold divide
  rw [h.toSigned_eq]
  dsimp only
  split
  · exact simulates_throw_bind _ _ _
  · refine fetch_rdx.bind fun x v hx => fetch_rax.bind fun y u hy => ?_
    rw [hx.modular.toSigned_eq, show y = (u.toNat : Int) from hy]
    split
    · exact simulates_throw_bind _ _ _
    · exact (store_rax (Modular.exact rfl)).bind fun _ _ _ => store_rdx (Modular.exact rfl)

theorem jump_simulates (labels : LabelTable) (target : Operand) :
    Simulates Eq (jump labels target) (StackLang.Exec.jump labels target) := by
  cases target with
  | label name =>
      unfold jump StackLang.Exec.jump
      dsimp only
      cases labels.find? name with
      | some index => exact simulates_modify fun _ _ hst => { hst with pc := rfl }
      | none => exact simulates_throw _
  | _ => exact simulates_throw _

theorem returnFromRoutine_simulates :
    Simulates Eq returnFromRoutine StackLang.Exec.returnFromRoutine := by
  refine pop_simulates.bind fun n w h => ?_
  have hhalt : n = haltAddress ↔ w = StackLang.Exec.haltAddress := by
    rw [h, ← BitVec.toNat_inj]
    exact Int.natCast_inj
  by_cases hw : w = StackLang.Exec.haltAddress
  · rw [if_pos hw, if_pos (hhalt.mpr hw)]
    exact simulates_modify fun _ _ hst => { hst with halted := rfl }
  · rw [if_neg hw, if_neg (mt hhalt.mp hw), h]
    exact simulates_throw _

theorem setIf_simulates (ho : o.Settled) (condition : Flags → Bool) :
    Simulates Eq (setIf o condition) (StackLang.Exec.setIf o condition) := by
  refine simulates_get.bind fun s t hst => writeOperand_simulates ho ?_
  rw [hst.flags]
  split <;> rfl

/-- Instructions do to words what they do to integers. -/
theorem instr_simulates (labels : LabelTable) {i : Instr} (hi : ∀ o ∈ i.operands, o.Settled) :
    Simulates Eq (instr labels i) (StackLang.Exec.instr labels i) := by
  obtain ⟨mnemonic, operands⟩ := i
  have hfirst : ∀ {o rest}, operands = o :: rest → o.Settled :=
    fun hops => hi _ (hops ▸ List.mem_cons_self)
  have hsecond : ∀ {o o' rest}, operands = o :: o' :: rest → o'.Settled :=
    fun hops => hi _ (hops ▸ List.mem_cons_of_mem _ List.mem_cons_self)
  clear hi
  unfold instr StackLang.Exec.instr
  cases mnemonic with
  | push =>
      rcases operands with _ | ⟨source, _⟩
      · exact simulates_throw _
      · exact (readOperand_simulates (hfirst rfl)).bind fun _ _ h => push_simulates h.modular
  | pop =>
      rcases operands with _ | ⟨target, _⟩
      · exact simulates_throw _
      · exact pop_simulates.bind fun _ _ h => writeOperand_simulates (hfirst rfl) h.modular
  | mov =>
      rcases operands with _ | ⟨target, _ | ⟨source, _⟩⟩
      · exact simulates_throw _
      · exact simulates_throw _
      · exact (readOperand_simulates (hsecond rfl)).bind fun _ _ h =>
          writeOperand_simulates (hfirst rfl) h.modular
  | lea =>
      rcases operands with _ | ⟨target, _ | ⟨source, _⟩⟩
      · exact simulates_throw _
      · exact simulates_throw _
      · cases source with
        | mem base d =>
            exact (address_simulates (hsecond rfl) d).bind fun _ _ h =>
              writeOperand_simulates (hfirst rfl) h.modular
        | _ => exact simulates_throw _
  | movzb =>
      rcases operands with _ | ⟨target, _ | ⟨source, _⟩⟩
      · exact simulates_throw _
      · exact simulates_throw _
      · refine (readOperand_simulates (hsecond rfl)).bind fun n w h =>
          writeOperand_simulates (hfirst rfl) (Exact.modular ?_)
        rw [Exact, ← h.modular]
        exact Word.lowByte_ofInt_toNat n
  | add | sub =>
      rcases operands with _ | ⟨target, _ | ⟨source, _⟩⟩
      · exact simulates_throw _
      · exact simulates_throw _
      · exact (arithmetic_simulates _ (hfirst rfl) (hsecond rfl)).bind fun _ _ h =>
          writeOperand_simulates (hfirst rfl) h
  | cmp =>
      rcases operands with _ | ⟨target, _ | ⟨source, _⟩⟩
      · exact simulates_throw _
      · exact simulates_throw _
      · exact (arithmetic_simulates _ (hfirst rfl) (hsecond rfl)).bind fun _ _ _ =>
          simulates_pure rfl
  | imul =>
      rcases operands with _ | ⟨target, _ | ⟨source, _⟩⟩
      · exact simulates_throw _
      · exact (readOperand_simulates (hfirst rfl)).bind fun _ _ _ => simulates_throw _
      · exact multiply_simulates (hfirst rfl) (hsecond rfl)
  | cqo => exact extendSign_simulates
  | idiv =>
      rcases operands with _ | ⟨source, _⟩
      · exact simulates_throw _
      · exact (readOperand_simulates (hfirst rfl)).bind fun _ _ h => divide_simulates h.modular
  | sete | setne | setl | setle =>
      rcases operands with _ | ⟨target, _⟩
      · exact simulates_throw _
      · exact setIf_simulates (hfirst rfl) _
  | jmp =>
      rcases operands with _ | ⟨target, _⟩
      · exact simulates_throw _
      · exact jump_simulates labels target
  | je =>
      refine simulates_get.bind fun s t hst => ?_
      rw [hst.flags]
      split
      · rcases operands with _ | ⟨target, _⟩
        · exact simulates_throw _
        · exact jump_simulates labels target
      · exact simulates_pure rfl
  | ret => exact returnFromRoutine_simulates
  | other name => exact simulates_throw _

/-- Both machines start a run in the same way. -/
theorem represents_startState (config : MachineConfig) (pc : Int) :
    Represents (startState config.stackTop pc) (Listing.startState config pc) := by
  have htop : Modular (config.stackTop - 8) (Word.ofInt config.stackTop - 8) :=
    Modular.sub rfl rfl
  have hstored := Represents.initial.store Register.settled_rsp (by decide) htop.exact
  have hpushed := hstored.insert htop.exact.modular.exact
    (Modular.exact (rfl : Modular haltAddress StackLang.Exec.haltAddress))
  exact { hpushed with pc := rfl }

theorem result_simulates :
    Simulates Eq result (return (← get).result : StackLang.Exec RunResult) := by
  rw [StackLang.Exec.result_do]
  refine fetch_rax.bind fun n w h => simulates_get.bind fun s t hst => simulates_pure ?_
  have hlow : (Bits.and w.toInt lowByte).toNat = w.lowByte.toNat := by
    rw [Word.lowByte_ofInt_toNat, Word.ofInt, BitVec.ofInt_toInt]
    rfl
  rw [h.modular.toSigned_eq, hlow, hst.steps]

end Exec

/-! ## Runs and sessions -/

theorem Simulates.during {α β : Type} {R : α → β → Prop} {x : Exec α} {y : StackLang.Exec β}
    (h : Simulates R x y) (i : Option PlacedInstr) :
    Simulates R (during i x) (Unbounded.during i y) := by
  intro s t hst
  have hagree := h s t hst
  unfold Unbounded.during
  generalize x s = q at hagree
  generalize y t = r at hagree
  cases hagree with
  | ok hab hst' => exact .ok hab hst'
  | error hst' => exact .error hst'

variable {l : Listing}

theorem settled_of_regular (hl : l.Regular) {p : PlacedInstr} (hp : p ∈ l.instructions) :
    ∀ o ∈ p.instr.operands, o.Settled := by
  intro o ho
  have hread := (hl.readable p hp).operand o ho
  cases o with
  | reg r => exact Register.settled_of_known hread.2
  | mem base d => exact Register.settled_of_known hread.2.1
  | imm value => trivial
  | label name => trivial

theorem step_simulates (hl : l.Regular) : Simulates Eq (step l) l.step := by
  rw [Listing.step_do]
  refine simulates_get.bind fun s t hst => ?_
  rw [hst.pc]
  cases hfetch : l.fetch? t.pc with
  | none => exact simulates_throw _
  | some i =>
      have hsettled := settled_of_regular hl (Listing.mem_of_fetch? hfetch)
      refine (simulates_modify fun s t hst => ?_).bind fun _ _ _ =>
        (Exec.instr_simulates l.labels hsettled).during (some i)
      exact { hst with
        pc := congrArg (· + 1) hst.pc
        steps := congrArg (· + 1) hst.steps }

theorem runFor_simulates (hl : l.Regular) (entry : String) (limit remaining : Nat) :
    Simulates Eq (runFor l entry limit remaining) (l.runFor entry limit remaining) := by
  induction remaining with
  | zero =>
      rw [Listing.runFor_zero_do]
      refine simulates_get.bind fun s t hst => ?_
      rw [hst.halted]
      split
      · exact simulates_pure rfl
      · exact simulates_throw _
  | succ remaining ih =>
      rw [Listing.runFor_succ_do]
      refine simulates_get.bind fun s t hst => ?_
      rw [hst.halted]
      split
      · exact simulates_pure rfl
      · refine simulates_get.bind fun s t hst => ?_
        rw [hst.pc]
        split
        · exact simulates_throw _
        · exact (step_simulates hl).bind fun _ _ _ => ih

theorem start_simulates (config : MachineConfig) (pc : Int) :
    Simulates Eq (during none (Exec.start config.stackTop pc))
      (set (Listing.startState config pc) : EStateM Fault StackLang.State PUnit) := by
  intro s t _
  exact .ok rfl (Exec.represents_startState config pc)

theorem run_simulates (hl : l.Regular) (config : MachineConfig) (entry : Option String) :
    Simulates Eq (run l config entry) (l.run config entry) := by
  unfold run
  dsimp only
  cases hpc : l.labels.find? (l.startLabel entry) with
  | none =>
      intro s t hst
      rw [Listing.run_of_undefined hpc]
      exact .error hst
  | some pc =>
      rw [Listing.run_do hpc]
      exact (start_simulates config pc).bind fun _ _ _ =>
        (runFor_simulates hl _ _ _).bind fun _ _ _ => Exec.result_simulates.during none

namespace Machine

/-- The machines have the same listing and settings, and are in states that stand for the same. -/
structure Refines (m : Machine) (n : StackLang.Machine) : Prop where
  listing : m.listing = n.listing
  config : m.config = n.config
  state : Represents m.state n.state

theorem act_simulates {l : Listing} (hl : l.Regular) (config : MachineConfig) (s : State)
    (t : StackLang.State) (a : Action) :
    Simulates Eq (act ⟨l, config, s⟩ a) (StackLang.Machine.act ⟨l, config, t⟩ a) := by
  cases a with
  | step => exact (step_simulates hl).bind fun _ _ _ => simulates_pure rfl
  | run entry =>
      exact (run_simulates hl config entry).bind fun _ _ h => simulates_pure (congrArg _ h)
  | reset =>
      intro _ _ _
      exact .ok rfl .initial
  | readRegister name =>
      have hread := Exec.readRegister_simulates (Register.settled_ofName name)
      rw [Register.name_ofName] at hread
      exact (hread.during none).bind fun _ _ h => simulates_pure (congrArg _ h)
  | writeRegister name value =>
      have hwrite := Exec.writeRegister_simulates (Register.settled_ofName name)
        (rfl : Modular value (Word.ofInt value))
      rw [Register.name_ofName] at hwrite
      exact (hwrite.during none).bind fun _ _ _ => simulates_pure rfl
  | readMemory address =>
      exact ((Exec.readMemory_simulates rfl).during none).bind fun _ _ h =>
        simulates_pure (congrArg _ h)
  | writeMemory address value =>
      exact ((Exec.writeMemory_simulates rfl rfl).during none).bind fun _ _ _ => simulates_pure rfl
  | setPc pc =>
      refine (simulates_modify fun s t hst => ?_).bind fun _ _ _ => simulates_pure rfl
      exact { hst with pc := rfl }
  | setFlags flags =>
      refine (simulates_modify fun s t hst => ?_).bind fun _ _ _ => simulates_pure rfl
      exact { hst with flags := rfl }
  | toSigned value => exact simulates_pure (congrArg _ (Bits.toSigned_eq value))

/-- An action gives the same answer on both machines. -/
theorem Refines.perform {m : Machine} {n : StackLang.Machine} (h : m.Refines n)
    (hl : n.listing.Regular) (a : Action) :
    (m.perform a).1 = (n.perform a).1 ∧ (m.perform a).2.Refines (n.perform a).2 := by
  obtain ⟨l, config, s⟩ := m
  obtain ⟨l', config', t⟩ := n
  obtain ⟨rfl, rfl, hst⟩ := h
  have hagree := act_simulates hl config s t a s t hst
  rw [StackLang.Machine.perform_do, Machine.perform]
  dsimp only at hagree ⊢
  generalize act _ a s = p at hagree ⊢
  generalize StackLang.Machine.act _ a t = q at hagree ⊢
  cases hagree with
  | ok hreply hst' => exact ⟨congrArg _ hreply, rfl, rfl, hst'⟩
  | error hst' => exact ⟨rfl, rfl, rfl, hst'⟩

/-- A session goes in the same way on both machines. -/
theorem Refines.performAll_getElem? {m : Machine} {n : StackLang.Machine} (h : m.Refines n)
    (hl : n.listing.Regular) {actions : List Action} {i : Nat}
    {q : Except Fault Reply × StackLang.Machine} (hq : (n.performAll actions)[i]? = some q) :
    ∃ p, (m.performAll actions)[i]? = some p ∧ p.1 = q.1 ∧ p.2.Refines q.2 := by
  induction actions generalizing m n i with
  | nil => cases hq
  | cons a rest ih =>
      have hfirst := h.perform hl a
      cases i with
      | zero =>
          cases hq
          exact ⟨m.perform a, rfl, hfirst⟩
      | succ i =>
          have hnext : (n.perform a).2.listing.Regular := by
            rw [(StackLang.Machine.perform_fixed n a).1]
            exact hl
          exact ih hfirst.2 hnext hq

theorem performAll_masked {m : Machine} (h : m.state.Masked) (actions : List Action) :
    ∀ p ∈ m.performAll actions, p.2.state.Masked := by
  induction actions generalizing m with
  | nil => exact fun p hp => absurd hp List.not_mem_nil
  | cons a rest ih =>
      intro p hp
      rcases List.mem_cons.mp hp with rfl | hp
      · exact perform_masked h a
      · exact ih (perform_masked h a) p hp

/-- However a machine is driven, short of setting its program counter: after every action registers
and memory hold numbers of 64 bits, the program counter is in bounds, and a run that could start has
taken no more steps than the limit. -/
theorem performAll_inRange {text filename : String} {l : Listing}
    (hl : Listing.read text filename = .ok l) (config : MachineConfig) (actions : List Action)
    (hfree : ∀ a ∈ actions, ∀ pc, a ≠ .setPc pc) (i : Nat) (a : Action)
    (ha : actions[i]? = some a) :
    ∃ answer m, (performAll ⟨l, config, {}⟩ actions)[i]? = some (answer, m) ∧
      m.state.Masked ∧ 0 ≤ m.state.pc ∧ m.state.pc ≤ l.instructions.size ∧
      ∀ entry, a = .run entry → l.labels.find? (l.startLabel entry) ≠ none →
        m.state.steps ≤ config.maxSteps := by
  have hregular := (Listing.read_wellFormed hl).toRegular
  obtain ⟨before, hlisting, hconfig, hkept, hi⟩ :=
    StackLang.Machine.performAll_kept (m := ⟨l, config, {}⟩) hregular Listing.kept_initial hfree ha
  obtain rfl : before.listing = l := hlisting
  obtain rfl : before.config = config := hconfig
  have hafter := StackLang.Machine.perform_kept hregular hkept (hfree a (List.mem_of_getElem? ha))
  have hstart : Refines ⟨before.listing, before.config, {}⟩ ⟨before.listing, before.config, {}⟩ :=
    ⟨rfl, rfl, .initial⟩
  obtain ⟨⟨answer, m⟩, hm, -, hrefines⟩ := hstart.performAll_getElem? hregular hi
  have hmasked := performAll_masked State.masked_initial actions _ (List.mem_of_getElem? hm)
  refine ⟨answer, m, hm, hmasked, hrefines.state.pc ▸ hafter.bounds.1,
    hrefines.state.pc ▸ hafter.bounds.2, ?_⟩
  rintro entry rfl hentry
  obtain ⟨pc, hpc⟩ := Option.ne_none_iff_exists'.mp hentry
  rw [hrefines.state.steps, StackLang.Machine.perform_run]
  exact hregular.run_steps_le before.config hpc before.state

/-- A routine that never gets to its end. -/
def endlessPush : String :=
  "f: push -1\njmp f\nret\n"

/-- Writes that wrap around, a run that is cut off, and steps after it. -/
def wildSession : List Action :=
  [.writeRegister "rbx" (-1), .writeRegister "al" 0x1FF, .writeMemory (-8) (2 ^ 64), .step,
    .run (some "g"), .run (some "f"), .step, .step]

theorem performAll_inRange_wildSession :
    ∃ (l : Listing) (answer : Except Fault Reply) (m : Machine),
      Listing.read endlessPush = .ok l ∧
      (performAll ⟨l, ⟨7, -32, by decide, by decide⟩, {}⟩ wildSession)[5]? = some (answer, m) ∧
      m.state.Masked ∧ 0 ≤ m.state.pc ∧ m.state.pc ≤ l.instructions.size ∧ m.state.steps ≤ 7 := by
  have hcheck : ((Listing.read endlessPush).toOption.any fun l =>
      decide (l.labels.find? (l.startLabel (some "f")) ≠ none)) = true := by
    decide +kernel
  obtain ⟨l, hl, hcheck⟩ := exists_ok_of_any hcheck
  obtain ⟨answer, m, hm, hmasked, hnonneg, hle, hsteps⟩ :=
    performAll_inRange hl ⟨7, -32, by decide, by decide⟩ wildSession (by simp [wildSession]) 5
      (.run (some "f")) rfl
  exact ⟨l, answer, m, hl, hm, hmasked, hnonneg, hle, hsteps _ rfl (of_decide_eq_true hcheck)⟩

end Machine

end Unbounded

end StackLang
