import StackLang.Proofs.Moves

/-!
# Effects of instructions

All that an instruction does to a state is to write registers, words and flags, to jump to a label
and to halt. So what these few changes preserve holds after every instruction, whether it succeeds
or fails half-way.
-/

namespace StackLang

/-- The state in which an execution ended, whether it succeeded or failed. -/
def endState {ε σ α : Type} : EStateM.Result ε σ α → σ
  | .ok _ s => s
  | .error _ s => s

namespace Exec

section

variable {ε σ α β : Type} {I : σ → Prop}

theorem bind_ok {x : EStateM ε σ α} {s τ : σ} {a : α} (h : x s = .ok a τ)
    (f : α → EStateM ε σ β) : (x >>= f) s = f a τ := by
  change EStateM.bind x f s = f a τ
  unfold EStateM.bind
  rw [h]

/-- What holds of the state before holds of the state after, also if the execution fails. -/
def Maintains (I : σ → Prop) (x : EStateM ε σ α) : Prop :=
  ∀ s, I s → I (endState (x s))

theorem maintains_pure (a : α) : Maintains I (pure a : EStateM ε σ α) :=
  fun _ h => h

theorem maintains_throw (cause : ε) : Maintains I (throw cause : EStateM ε σ α) :=
  fun _ h => h

/-- After a fault nothing more is done. -/
theorem maintains_throw_bind (cause : ε) (f : α → EStateM ε σ β) :
    Maintains I ((throw cause : EStateM ε σ α) >>= f) :=
  fun _ h => h

theorem maintains_get : Maintains I (get : EStateM ε σ σ) :=
  fun _ h => h

theorem maintains_modify {f : σ → σ} (hf : ∀ s, I s → I (f s)) :
    Maintains I (modify f : EStateM ε σ Unit) :=
  fun s h => hf s h

theorem Maintains.bind {x : EStateM ε σ α} {f : α → EStateM ε σ β} (hx : Maintains I x)
    (hf : ∀ a, Maintains I (f a)) : Maintains I (x >>= f) := by
  intro s h
  have hfirst := hx s h
  change I (endState (EStateM.bind x f s))
  unfold EStateM.bind
  cases hrun : x s with
  | ok a s' =>
      rw [hrun] at hfirst
      exact hf a s' hfirst
  | error cause s' =>
      rw [hrun] at hfirst
      exact hfirst

end

/-! ## Instructions -/

/-- The changes that make up instructions preserve `I`, if the registers that are written are
allowed to be. Some instructions write `rax`, `rdx` or `rsp` without naming them. -/
structure Steady (labels : LabelTable) (allowed : Register → Prop) (I : State → Prop) : Prop where
  rax : allowed .rax
  rdx : allowed .rdx
  rsp : allowed .rsp
  register : ∀ s r w, allowed r → I s → I { s with registers := s.registers.write r w }
  memory : ∀ s m, I s → I { s with memory := m }
  flags : ∀ s f, I s → I { s with flags := f }
  jump : ∀ s name index, labels.find? name = some index → I s → I { s with pc := index }
  halt : ∀ s, I s → I { s with halted := true }

section

variable {labels : LabelTable} {allowed : Register → Prop} {I : State → Prop}

theorem readRegister_maintains (r : Register) : Maintains I (readRegister r) := by
  refine maintains_get.bind fun s => ?_
  split
  · exact maintains_pure _
  · exact maintains_throw _

theorem address_maintains (base : Register) (displacement : Int) :
    Maintains I (address base displacement) :=
  (readRegister_maintains base).bind fun _ => maintains_pure _

theorem readOperand_maintains (o : Operand) : Maintains I (readOperand o) := by
  cases o with
  | reg r => exact readRegister_maintains r
  | imm value => exact maintains_pure _
  | mem base d =>
      exact (address_maintains base d).bind fun _ => maintains_get.bind fun _ => maintains_pure _
  | label name => exact maintains_throw _

namespace Steady

theorem writeOperand (h : Steady labels allowed I) {o : Operand}
    (ho : ∀ r, o = .reg r → allowed r) (w : Word) : Maintains I (writeOperand o w) := by
  cases o with
  | reg r => exact maintains_modify fun s hs => h.register s r w (ho r rfl) hs
  | mem base d =>
      exact (address_maintains base d).bind fun _ => maintains_modify fun s hs => h.memory s _ hs
  | imm value => exact maintains_throw _
  | label name => exact maintains_throw _

theorem push (h : Steady labels allowed I) (w : Word) : Maintains I (push w) :=
  maintains_modify fun s hs => h.memory _ _ (h.register s .rsp _ h.rsp hs)

theorem pop (h : Steady labels allowed I) : Maintains I pop :=
  fun s hs => h.register s .rsp (s.registers.rsp + 8) h.rsp hs

theorem arithmetic (h : Steady labels allowed I) (operation : Int → Int → Int)
    (left right : Operand) : Maintains I (arithmetic operation left right) :=
  (readOperand_maintains left).bind fun _ => (readOperand_maintains right).bind fun _ =>
    (maintains_modify fun s hs => h.flags s _ hs).bind fun _ => maintains_pure _

theorem multiply (h : Steady labels allowed I) {left : Operand}
    (hleft : ∀ r, left = .reg r → allowed r) (right : Operand) :
    Maintains I (multiply left right) :=
  (readOperand_maintains left).bind fun _ => (readOperand_maintains right).bind fun _ =>
    (h.writeOperand hleft _).bind fun _ => maintains_modify fun s hs => h.flags s _ hs

theorem divide (h : Steady labels allowed I) (divisor : Word) : Maintains I (divide divisor) := by
  unfold Exec.divide
  dsimp only
  split
  · exact maintains_throw_bind _ _
  · refine maintains_get.bind fun s => ?_
    split
    · exact maintains_throw_bind _ _
    · exact maintains_modify fun s hs =>
        h.register _ .rdx _ h.rdx (h.register s .rax _ h.rax hs)

theorem follow (h : Steady labels allowed I) (target : Operand) :
    Maintains I (Exec.jump labels target) := by
  unfold Exec.jump
  split
  · split
    · next hname => exact maintains_modify fun s hs => h.jump s _ _ hname hs
    · exact maintains_throw _
  · exact maintains_throw _

theorem returnFromRoutine (h : Steady labels allowed I) : Maintains I returnFromRoutine := by
  refine h.pop.bind fun address => ?_
  split
  · exact maintains_modify fun s hs => h.halt s hs
  · exact maintains_throw _

theorem setIf (h : Steady labels allowed I) {o : Operand} (ho : ∀ r, o = .reg r → allowed r)
    (condition : Flags → Bool) : Maintains I (setIf o condition) :=
  maintains_get.bind fun _ => h.writeOperand ho _

/-- What the single changes preserve is preserved by every instruction. -/
theorem instr (h : Steady labels allowed I) {i : Instr}
    (hi : ∀ r, .reg r ∈ i.operands → allowed r) : Maintains I (instr labels i) := by
  have hfirst : ∀ {o rest}, i.operands = o :: rest → ∀ r, o = .reg r → allowed r := by
    rintro o rest hops r rfl
    exact hi r (hops ▸ List.mem_cons_self)
  unfold Exec.instr
  split
  case h_1 => exact (readOperand_maintains _).bind h.push
  case h_2 hops => exact h.pop.bind (h.writeOperand (hfirst hops))
  case h_3 hops => exact (readOperand_maintains _).bind (h.writeOperand (hfirst hops))
  case h_4 hops =>
    split
    · exact (address_maintains _ _).bind (h.writeOperand (hfirst hops))
    · exact maintains_throw _
  case h_5 hops => exact (readOperand_maintains _).bind fun _ => h.writeOperand (hfirst hops) _
  case h_6 hops => exact (h.arithmetic _ _ _).bind (h.writeOperand (hfirst hops))
  case h_7 hops => exact (h.arithmetic _ _ _).bind (h.writeOperand (hfirst hops))
  case h_8 => exact (h.arithmetic _ _ _).bind fun _ => maintains_pure _
  case h_9 hops => exact h.multiply (hfirst hops) _
  case h_10 => exact (readOperand_maintains _).bind fun _ => maintains_throw _
  case h_11 => exact maintains_modify fun s hs => h.register s .rdx _ h.rdx hs
  case h_12 => exact (readOperand_maintains _).bind h.divide
  case h_13 hops => exact h.setIf (hfirst hops) _
  case h_14 hops => exact h.setIf (hfirst hops) _
  case h_15 hops => exact h.setIf (hfirst hops) _
  case h_16 hops => exact h.setIf (hfirst hops) _
  case h_17 => exact h.follow _
  case h_18 =>
    refine maintains_get.bind fun s => ?_
    split
    · split
      · exact h.follow _
      · exact maintains_throw _
    · exact maintains_pure _
  case h_19 => exact h.returnFromRoutine
  case h_20 => exact maintains_throw _
  case h_21 => exact maintains_throw _

end Steady

end

end Exec

namespace Listing

variable {l : Listing} {σ : State}

/-- A step executes the instruction at the program counter, if there is one. -/
theorem step_eq (l : Listing) (σ : State) :
    l.step σ =
      match l.fetch? σ.pc with
      | none => .error ⟨.noInstruction, none⟩ σ
      | some i =>
        match Exec.instr l.labels i.instr σ.tick with
        | .ok () τ => .ok () τ
        | .error cause τ => .error ⟨cause, some i⟩ τ :=
  rfl

/-- What instructions preserve holds after a step, unless there was no instruction to execute. -/
theorem step_maintains {allowed : Register → Prop} {I : State → Prop}
    (hI : Exec.Steady l.labels allowed I)
    (hall : ∀ p ∈ l.fetch? σ.pc, ∀ r, .reg r ∈ p.instr.operands → allowed r) (hσ : I σ.tick) :
    I (endState (l.step σ)) ∨ l.step σ = .error ⟨.noInstruction, none⟩ σ := by
  rw [step_eq]
  cases hfetch : l.fetch? σ.pc with
  | none => exact Or.inr rfl
  | some p =>
      have hkept := hI.instr (hall p hfetch) σ.tick hσ
      simp only
      cases hrun : Exec.instr l.labels p.instr σ.tick with
      | ok a τ =>
          rw [hrun] at hkept
          exact Or.inl hkept
      | error cause τ =>
          rw [hrun] at hkept
          exact Or.inl hkept

end Listing

end StackLang
