import StackLang.Proofs.StmtRun

/-!
# Running routines

A routine sets up its activation, runs its statements and hands the result over. Between the
prologue and the return label every state is disciplined; the run halts, stops at a division or
goes on for ever as the program does.
-/

namespace StackLang

open Listing (Moves)

/-- A step of code that need not be disciplined, to the next instruction. -/
theorem Loaded.advance {l : Listing} {code rest : List Emission} {i d : Nat} {m : Mnemonic}
    {ops : List Operand} {Q : State → Prop} {σ : State} {ρ : Registers} {μ : Memory} {φ : Flags}
    (hl : Loaded l code) (hs : Stands code i (Emission.instr d m ops :: rest)) (hpc : σ.pc = i)
    (hrun : σ.halted = false) (hq : Q σ)
    (hx : Exec.instr l.labels ⟨m, ops⟩ σ.tick =
      .ok () { σ.tick with registers := ρ, memory := μ, flags := φ }) :
    ∃ τ, l.Moves Q 1 σ τ ∧ τ.pc = (i + 1 : Nat) ∧ τ.halted = false ∧ τ.registers = ρ ∧
      τ.memory = μ := by
  obtain ⟨hlt, p, hp, hi⟩ := hl.fetch hs
  rw [← hpc] at hlt hp
  refine ⟨{ σ.tick with registers := ρ, memory := μ, flags := φ },
    .one hq ⟨hrun, hlt⟩ (Listing.step_ok hp (hi ▸ hx)), ?_, hrun, rfl, rfl⟩
  simp [State.tick, hpc]

/-! ## The prologue -/

/-- Where the statements of a routine begin. -/
def bodyStart (frame : Int) : Nat :=
  if frame = 0 then 3 else 4

theorem codeSize_prologueCode (o : RoutineOptions) (slotCount : Nat) (frame : Int) :
    codeSize (prologueCode o slotCount frame) = bodyStart frame := by
  have hhead : codeSize [⟨0, .intelDirective⟩, ⟨0, .global o.entry⟩, Emission.label o.entry] = 0 :=
    rfl
  rw [prologueCode, bodyStart, codeSize_append, hhead, codeSize_append, codeSize_remark]
  by_cases h : frame = 0 <;> simp [h]

namespace Activation

variable {κ : Type} {key : VarRef → κ} {P : VarRef → Prop} {A : Activation} {l : Listing}
  {code : List Emission} {o : RoutineOptions} {slotCount : Nat}

theorem word_of_base {top : Int} (hbase : A.base = Word.ofInt (top - 16)) (x : Int) :
    A.word x = Word.ofInt (top - 16 - x) := by
  rw [word, hbase, Word.ofInt_sub_ofInt]

/-- The memory when the words of the caller have been written. -/
def callerMemory (A : Activation) : Memory :=
  (({} : Memory).write (A.word (-8)) Exec.haltAddress).write (A.word 0) 0

theorem keeps_callerMemory (hcaller : A.caller = [0, Exec.haltAddress]) :
    A.Keeps A.callerMemory := by
  have hsize := A.size_nonneg
  have hlength : A.caller.length = 2 := by rw [hcaller]; rfl
  have hne : A.word (-8) ≠ A.word 0 :=
    word_ne_word (by omega) (by omega) (by omega) hsize (by omega)
  intro i w hi
  rw [hcaller] at hi
  match i, hi with
  | 0, rfl => exact Memory.read_write_self _ _ _
  | 1, rfl => exact (Memory.read_write_ne _ _ hne).trans (Memory.read_write_self _ _ _)

/-- Variables are zero where nothing was written. -/
theorem holds_callerMemory (hcaller : A.caller = [0, Exec.haltAddress]) (L : A.Layout key P) :
    A.Holds key P A.callerMemory Store.initial := by
  intro r hr
  have hsize := A.size_nonneg
  have hlength : A.caller.length = 2 := by rw [hcaller]; rfl
  obtain ⟨hpos, hle⟩ := L.inside r hr
  have hne : A.word r.offset ≠ A.word 0 :=
    word_ne_word (by omega) hle (by omega) hsize (by omega)
  have hne' : A.word r.offset ≠ A.word (-8) :=
    word_ne_word (by omega) hle (by omega) (by omega) (by omega)
  rw [callerMemory, Memory.read_write_ne _ _ hne, Memory.read_write_ne _ _ hne', Memory.read_empty]
  rfl

theorem three_le_bodyStart (frame : Int) : 3 ≤ bodyStart frame := by
  unfold bodyStart
  split <;> omega

/-- The frame pointer of the caller is saved and the new one set. -/
theorem enter_runs (hl : Loaded l code) (config : MachineConfig)
    (hbase : A.base = Word.ofInt (config.stackTop - 16)) {rest : List Emission}
    (hs : Stands code 0 (Emission.instr 0 .push [.reg .rbp] ::
      Emission.instr 0 .mov [.reg .rbp, .reg .rsp] :: rest)) :
    ∃ τ, l.Moves (fun σ => σ.pc < bodyStart A.size) 2 (Listing.startState config 0) τ ∧
      τ.pc = 2 ∧ τ.halted = false ∧ τ.registers.rbp = A.base ∧ τ.registers.rsp = A.base ∧
      τ.memory = A.callerMemory := by
  have hle := three_le_bodyStart A.size
  have hback : Word.ofInt config.stackTop - 8 = A.word (-8) := by
    rw [word_of_base hbase]
    exact (Word.ofInt_sub_ofInt config.stackTop 8).trans (by congr 1; omega)
  have hsaved : A.word (-8) - 8 = A.word 0 := A.word_sub (-8) 8
  obtain ⟨σ₁, h₁, hpc₁, hrun₁, hregs₁, hmem₁⟩ :=
    hl.advance (Q := fun σ => σ.pc < bodyStart A.size) (σ := Listing.startState config 0) hs rfl rfl
      (by simp [Listing.startState]; omega) (ρ := { rsp := A.word 0 }) (μ := A.callerMemory)
      (φ := {}) (by rw [callerMemory, ← hsaved, ← hback]; rfl)
  obtain ⟨σ₂, h₂, hpc₂, hrun₂, hregs₂, hmem₂⟩ :=
    hl.advance (Q := fun σ => σ.pc < bodyStart A.size) hs.next hpc₁ hrun₁ (by omega)
      (ρ := σ₁.registers.write .rbp σ₁.registers.rsp) rfl
  refine ⟨σ₂, h₁.trans h₂, hpc₂, hrun₂, ?_, ?_, hmem₂.trans hmem₁⟩
  · rw [hregs₂, hregs₁]
    exact A.word_zero
  · rw [hregs₂, hregs₁]
    exact A.word_zero

/-- Room is made for the variables, unless there are none. -/
theorem reserve_runs {σ : State} {rest : List Emission} (hl : Loaded l code)
    (hs : Stands code 2 ((if A.size = 0 then []
      else [Emission.instr 0 .sub [.reg .rsp, .imm A.size]]) ++ rest))
    (hpc : σ.pc = 2) (hrun : σ.halted = false) (hrbp : σ.registers.rbp = A.base)
    (hrsp : σ.registers.rsp = A.base) :
    ∃ τ, l.Moves (fun σ => σ.pc < bodyStart A.size) (bodyStart A.size - 3) σ τ ∧
      τ.pc = (bodyStart A.size - 1 : Nat) ∧ τ.halted = false ∧ τ.registers.rbp = A.base ∧
      τ.registers.rsp = A.temp 0 ∧ τ.memory = σ.memory := by
  by_cases hzero : A.size = 0
  · have hstart : bodyStart A.size = 3 := if_pos hzero
    rw [hstart]
    refine ⟨σ, .refl σ, hpc, hrun, hrbp, ?_, rfl⟩
    rw [hrsp, temp, hzero, ← A.word_zero]
    rfl
  · have hstart : bodyStart A.size = 4 := if_neg hzero
    rw [if_neg hzero] at hs
    obtain ⟨τ, hτ, hpc', hrun', hregs, hmem⟩ :=
      hl.advance (Q := fun σ => σ.pc < bodyStart A.size) hs hpc hrun (by omega)
        (ρ := σ.registers.write .rsp
          (Word.ofInt (σ.registers.rsp.toInt - (Word.ofInt A.size).toInt))) rfl
    rw [Word.ofInt_sub, hrsp] at hregs
    rw [hstart] at hτ ⊢
    refine ⟨τ, hτ, hpc', hrun', ?_, ?_, hmem⟩
    · rw [hregs]
      exact hrbp
    · rw [hregs, temp, Nat.cast_zero, mul_zero, add_zero]
      rfl

/-- The state before the statements: the variables have room and are zero. -/
theorem prologue_runs (L : A.Layout key P) (hl : Loaded l code) (config : MachineConfig)
    (hbase : A.base = Word.ofInt (config.stackTop - 16))
    (hcaller : A.caller = [0, Exec.haltAddress])
    (hs : Stands code 0 (prologueCode o slotCount A.size)) :
    ∃ τ, l.Moves (fun σ => σ.pc < bodyStart A.size) (bodyStart A.size)
      (Listing.startState config 0) τ ∧ A.Rests key P (bodyStart A.size) {} τ := by
  have hle := three_le_bodyStart A.size
  have hinstrs := hs.right.pastRemark
  have hreserve : Stands code 2 ((if A.size = 0 then []
      else [Emission.instr 0 .sub [.reg .rsp, .imm A.size]]) ++
        [Emission.instr 0 .mov [.reg .rcx, .imm 0]]) := hinstrs.next.next
  obtain ⟨σ₂, h₂, hpc₂, hrun₂, hrbp₂, hrsp₂, hmem₂⟩ := enter_runs hl config hbase hinstrs
  obtain ⟨σ₃, h₃, hpc₃, hrun₃, hrbp₃, hrsp₃, hmem₃⟩ :=
    reserve_runs hl hreserve hpc₂ hrun₂ hrbp₂ hrsp₂
  have hpos : 2 + codeSize (if A.size = 0 then []
      else [Emission.instr 0 .sub [.reg .rsp, .imm A.size]]) = bodyStart A.size - 1 := by
    unfold bodyStart
    split <;> rfl
  have hclear : Stands code (bodyStart A.size - 1) [Emission.instr 0 .mov [.reg .rcx, .imm 0]] :=
    hpos ▸ hreserve.right
  obtain ⟨σ₄, h₄, hpc₄, hrun₄, hregs₄, hmem₄⟩ :=
    hl.advance (Q := fun σ => σ.pc < bodyStart A.size) hclear hpc₃ hrun₃ (by omega)
      (ρ := σ₃.registers.write .rcx (Word.ofInt 0)) (μ := σ₃.memory) rfl
  have hmem : σ₄.memory = A.callerMemory := by rw [hmem₄, hmem₃, hmem₂]
  have hmoves := (h₂.trans h₃).trans h₄
  rw [show 2 + (bodyStart A.size - 3) + 1 = bodyStart A.size by omega] at hmoves
  refine ⟨σ₄, hmoves, ⟨by omega, ?_, ?_, hrun₄, ?_⟩, ?_, ?_⟩
  · rw [hregs₄]
    exact hrbp₃
  · rw [hregs₄]
    exact hrsp₃
  · rw [hmem]
    exact keeps_callerMemory hcaller
  · rw [hmem]
    exact holds_callerMemory hcaller L
  · rw [hregs₄]
    rfl

/-! ## The epilogue -/

theorem exec_ret {labels : LabelTable} {s : State}
    (h : s.memory.read s.registers.rsp = Exec.haltAddress) :
    Exec.instr labels ⟨.ret, []⟩ s = .ok () { s with
      registers := { s.registers with rsp := s.registers.rsp + 8 }, halted := true } := by
  simp only [Exec.instr, Exec.returnFromRoutine, Exec.pop_bind, h, if_true]
  rfl

/-- The frame is given up and the machine halts. -/
theorem epilogue_runs {home : Nat} {rest : List Emission} {τ : State} (hl : Loaded l code)
    (hcaller : A.caller = [0, Exec.haltAddress])
    (hs : Stands code home (Emission.instr 0 .mov [.reg .rsp, .reg .rbp] ::
      Emission.instr 0 .pop [.reg .rbp] :: Emission.instr 0 .ret :: rest))
    (hτ : A.At home 0 τ) :
    ∃ υ, l.Moves (fun σ => home ≤ σ.pc) 3 τ υ ∧ υ.halted = true ∧ home ≤ υ.pc ∧
      υ.registers.rax = τ.registers.rax := by
  obtain ⟨σ₁, h₁, hpc₁, hrun₁, hregs₁, hmem₁⟩ :=
    hl.advance (Q := fun σ => home ≤ σ.pc) hs hτ.pc hτ.running (by simp [hτ.pc])
      (ρ := τ.registers.write .rsp τ.registers.rbp) (μ := τ.memory) rfl
  obtain ⟨σ₂, h₂, hpc₂, hrun₂, hregs₂, hmem₂⟩ :=
    hl.advance (Q := fun σ => home ≤ σ.pc) hs.next hpc₁ hrun₁ (by omega)
      (ρ := ({ σ₁.registers with rsp := σ₁.registers.rsp + 8 } : Registers).write .rbp
        (σ₁.memory.read σ₁.registers.rsp)) (μ := σ₁.memory) rfl
  have htop : σ₂.registers.rsp = A.word (-8) := by
    rw [hregs₂, hregs₁]
    change τ.registers.rbp + 8 = _
    rw [hτ.base, ← A.word_zero]
    exact A.word_add 0 8
  have hread : σ₂.memory.read σ₂.registers.rsp = Exec.haltAddress := by
    rw [htop, hmem₂, hmem₁]
    exact hτ.keeps 1 _ (by rw [hcaller]; rfl)
  obtain ⟨hlt, p, hp, hi⟩ := hl.fetch hs.next.next
  rw [← hpc₂] at hlt hp
  have hret : Exec.instr l.labels p.instr σ₂.tick = _ := hi ▸ exec_ret (s := σ₂.tick) hread
  have h₃ : l.Moves (fun σ => home ≤ σ.pc) 1 σ₂ _ :=
    .one (by omega) ⟨hrun₂, hlt⟩ (Listing.step_ok hp hret)
  refine ⟨_, (h₁.trans h₂).trans h₃, rfl, ?_, ?_⟩
  · simp only [State.tick]
    omega
  · simp only [State.tick, hregs₂, hregs₁, Registers.write]

/-! ## Whole runs -/

/-- The state is disciplined if it is one between the prologue and the return label. -/
def Tidy (A : Activation) (l : Listing) (code : List Emission) (home : Nat) (σ : State) : Prop :=
  (bodyStart A.size : Int) ≤ σ.pc → σ.pc < home → A.Disciplined l code σ

/-- What a run must do, by the value of the program. -/
def Concludes (A : Activation) (l : Listing) (code : List Emission) (home least n : Nat)
    (σ : State) : Option (Except Trap Word) → Prop
  | none => least ≤ n ∧ ∃ τ, l.Moves (A.Tidy l code home) n σ τ
  | some (.ok w) => ∃ τ, l.Moves (A.Tidy l code home) n σ τ ∧ A.Tidy l code home τ ∧
      τ.halted = true ∧ τ.registers.rax = w
  | some (.error .division) => ∃ τ cause, l.Moves (A.Tidy l code home) n σ τ ∧
      A.Tidy l code home τ ∧ l.Fails cause τ ∧
      (cause = .divisionByZero ∨ cause = .quotientRange)
  | some (.error .formless) => False

theorem tidy_of_disciplined {home : Nat} {σ : State} (h : A.Disciplined l code σ) :
    A.Tidy l code home σ :=
  fun _ _ => h

theorem tidy_of_home_le {home : Nat} {σ : State} (h : home ≤ σ.pc) : A.Tidy l code home σ := by
  intro _ hlt
  omega

theorem tidy_of_lt {home : Nat} {σ : State} (h : σ.pc < bodyStart A.size) :
    A.Tidy l code home σ := by
  intro hle _
  omega

/-- From the return label on, the run ends with the value in `rax`. -/
theorem concludes_of_home {home n least : Nat} {rest : List Emission} {σ τ : State} {w : Word}
    (hl : Loaded l code) (hcaller : A.caller = [0, Exec.haltAddress])
    (hs : Stands code home (Emission.instr 0 .mov [.reg .rsp, .reg .rbp] ::
      Emission.instr 0 .pop [.reg .rbp] :: Emission.instr 0 .ret :: rest))
    (hmoves : l.Moves (A.Tidy l code home) n σ τ) (hτ : A.At home 0 τ)
    (hw : τ.registers.rax = w) :
    A.Concludes l code home least (n + 3) σ (some (.ok w)) := by
  obtain ⟨υ, hυ, hhalted, hpc, hrax⟩ := epilogue_runs hl hcaller hs hτ
  exact ⟨υ, hmoves.trans (hυ.mono fun _ => tidy_of_home_le), tidy_of_home_le hpc, hhalted,
    hrax.trans hw⟩

end Activation

open Activation

/-- Where the return label of a routine stands. -/
def Program.home (p : Program) (o : RoutineOptions) (frame : Int) : Nat :=
  bodyStart frame + codeSize (codeAll o.comments p.statements 0) + 1

/-- The run of a routine from its start. The number of steps after the prologue depends on the
program alone. -/
theorem Program.runs {P : VarRef → Prop} {N : Int → Prop} (p : Program)
    (hp : AllStmts P N p.statements) (fuel : Nat) :
    ∃ n, ∀ {A : Activation} {l : Listing} {o : RoutineOptions} (config : MachineConfig),
      A.Layout VarRef.name P → A.Hosts l (p.code o A.size) →
      A.base = Word.ofInt (config.stackTop - 16) → A.caller = [0, Exec.haltAddress] →
      A.Concludes l (p.code o A.size) (p.home o A.size) (fuel - nestingAll p.statements)
        (bodyStart A.size + n) (Listing.startState config 0) (p.value fuel) := by
  obtain ⟨n, hn⟩ := stmtsRun VarRef.name fuel p.statements hp {}
  refine ⟨match execAll VarRef.name fuel p.statements {} with
    | none => n
    | some (.error _) => n
    | some (.ok (.next _)) => n + 1 + 3
    | some (.ok (.returned _)) => n + 3, fun {A l o} config L H hbase hcaller => ?_⟩
  have hcode := Stands.self (p.code o A.size)
  obtain ⟨σ, hσ, hrests⟩ := prologue_runs L H.loaded config hbase hcaller hcode.left
  have hprologue : l.Moves (A.Tidy l (p.code o A.size) (p.home o A.size)) _ _ _ :=
    hσ.mono fun _ => tidy_of_lt
  have hbody := hcode.right
  rw [codeSize_prologueCode, Nat.zero_add] at hbody
  have hepilogue := hbody.right
  have hhome : Stands (p.code o A.size) (p.home o A.size) _ := hepilogue.next
  have hrun := hn ⟨L, H, _, hhome⟩ hbody.left hrests
  rw [value]
  cases hexec : execAll VarRef.name fuel p.statements {} with
  | none =>
      rw [hexec] at hrun
      obtain ⟨hle, τ, hτ⟩ := hrun
      exact ⟨le_add_left hle, τ, hprologue.trans (hτ.mono fun _ => tidy_of_disciplined)⟩
  | some r =>
      rw [hexec] at hrun
      cases r with
      | error t =>
          cases t with
          | division =>
              obtain ⟨τ, cause, hτ, hdisc, hfails⟩ := hrun
              exact ⟨τ, cause, hprologue.trans (hτ.mono fun _ => tidy_of_disciplined),
                tidy_of_disciplined hdisc, hfails⟩
          | formless => exact hrun
      | ok ending =>
          cases ending with
          | next env =>
              obtain ⟨τ, hτ, hend⟩ := hrun
              obtain ⟨υ, hυ, -⟩ := H.quiet hepilogue hend.at_
                (ρ := τ.registers.write .rax τ.registers.rcx) (φ := τ.flags) rfl rfl rfl
              have hmoves : l.Moves (A.Tidy l (p.code o A.size) (p.home o A.size)) _ _ _ :=
                (hτ.trans hυ.moves).mono fun _ => tidy_of_disciplined
              refine concludes_of_home H.loaded hcaller hhome.pastLabel (hprologue.trans hmoves)
                hυ.at_ ?_
              rw [hυ.registers]
              exact hend.last
          | returned w =>
              obtain ⟨τ, hτ, hat, hw⟩ := hrun
              have hmoves : l.Moves (A.Tidy l (p.code o A.size) (p.home o A.size)) _ _ _ :=
                hτ.mono fun _ => tidy_of_disciplined
              exact concludes_of_home H.loaded hcaller hhome.pastLabel (hprologue.trans hmoves) hat
                hw

end StackLang
