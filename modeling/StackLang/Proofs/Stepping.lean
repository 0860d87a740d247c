import StackLang.Proofs.Arithmetic
import StackLang.Proofs.Effects

/-!
# Stepping a machine

A machine can be stepped whether it has halted or not, because no instruction looks at the flag that
says so. So what is known about the steps of a run, which are taken only while the machine has not
halted, holds of single steps from any state.
-/

namespace StackLang

/-- The state with the flag set as given. -/
def State.mark (σ : State) (b : Bool) : State :=
  { σ with halted := b }

/-- The same outcome with the flag set as given. -/
def markOutcome {ε α : Type} (b : Bool) :
    EStateM.Result ε State α → EStateM.Result ε State α
  | .ok a s => .ok a (s.mark b)
  | .error e s => .error e (s.mark b)

namespace Exec

/-- The execution neither looks at the flag nor changes it. -/
def Blind {α : Type} (x : Exec α) : Prop :=
  ∀ s b, x (s.mark b) = markOutcome b (x s)

section

variable {α β : Type}

theorem blind_pure (a : α) : Blind (pure a) :=
  fun _ _ => rfl

theorem blind_throw (cause : FaultCause) : Blind (throw cause : Exec α) :=
  fun _ _ => rfl

theorem blind_throw_bind (cause : FaultCause) (f : α → Exec β) :
    Blind ((throw cause : Exec α) >>= f) :=
  fun _ _ => rfl

theorem blind_modify {f : State → State} (hf : ∀ s b, f (s.mark b) = (f s).mark b) :
    Blind (modify f) := by
  intro s b
  change EStateM.Result.ok () (f (s.mark b)) = _
  rw [hf]
  rfl

/-- The state may be looked at, as long as the flag makes no difference to what follows. -/
theorem blind_get_bind {f : State → Exec α} (hf : ∀ s b, f (s.mark b) = f s)
    (h : ∀ s, Blind (f s)) : Blind (get >>= f) := by
  intro s b
  change f (s.mark b) (s.mark b) = markOutcome b (f s s)
  rw [hf]
  exact h s s b

theorem Blind.bind {x : Exec α} {f : α → Exec β} (hx : Blind x) (hf : ∀ a, Blind (f a)) :
    Blind (x >>= f) := by
  intro s b
  change EStateM.bind x f (s.mark b) = markOutcome b (EStateM.bind x f s)
  unfold EStateM.bind
  rw [hx]
  cases x s with
  | ok a s' => exact hf a s' b
  | error cause s' => rfl

end

/-! ## Instructions -/

theorem blind_pop : Blind pop :=
  fun _ _ => rfl

theorem blind_push (w : Word) : Blind (push w) :=
  blind_modify fun _ _ => rfl

theorem blind_readRegister (r : Register) : Blind (readRegister r) := by
  refine blind_get_bind (fun _ _ => rfl) fun s => ?_
  split
  · exact blind_pure _
  · exact blind_throw _

theorem blind_address (base : Register) (displacement : Int) : Blind (address base displacement) :=
  (blind_readRegister base).bind fun _ => blind_pure _

theorem blind_readOperand (o : Operand) : Blind (readOperand o) := by
  cases o with
  | reg r => exact blind_readRegister r
  | imm value => exact blind_pure _
  | mem base d =>
      exact (blind_address base d).bind fun _ =>
        blind_get_bind (fun _ _ => rfl) fun _ => blind_pure _
  | label name => exact blind_throw _

theorem blind_writeOperand (o : Operand) (w : Word) : Blind (writeOperand o w) := by
  cases o with
  | reg r => exact blind_modify fun _ _ => rfl
  | mem base d => exact (blind_address base d).bind fun _ => blind_modify fun _ _ => rfl
  | imm value => exact blind_throw _
  | label name => exact blind_throw _

theorem blind_arithmetic (operation : Int → Int → Int) (left right : Operand) :
    Blind (arithmetic operation left right) :=
  (blind_readOperand left).bind fun _ => (blind_readOperand right).bind fun _ =>
    (blind_modify fun _ _ => rfl).bind fun _ => blind_pure _

theorem blind_multiply (left right : Operand) : Blind (multiply left right) :=
  (blind_readOperand left).bind fun _ => (blind_readOperand right).bind fun _ =>
    (blind_writeOperand left _).bind fun _ => blind_modify fun _ _ => rfl

theorem blind_divide (divisor : Word) : Blind (divide divisor) := by
  unfold divide
  dsimp only
  split
  · exact blind_throw_bind _ _
  · refine blind_get_bind (fun _ _ => rfl) fun s => ?_
    split
    · exact blind_throw_bind _ _
    · exact blind_modify fun _ _ => rfl

theorem blind_setIf (o : Operand) (condition : Flags → Bool) : Blind (setIf o condition) :=
  blind_get_bind (fun _ _ => rfl) fun _ => blind_writeOperand o _

theorem blind_jump (labels : LabelTable) (target : Operand) : Blind (jump labels target) := by
  unfold jump
  split
  · split
    · exact blind_modify fun _ _ => rfl
    · exact blind_throw _
  · exact blind_throw _

/-- The flag makes no difference, unless the execution makes the machine halt. -/
def BlindOrHalts (x : Exec Unit) : Prop :=
  ∀ s b, x (s.mark b) = markOutcome b (x s) ∨ ∃ t, x s = .ok () t ∧ t.halted = true

theorem Blind.orHalts {x : Exec Unit} (h : Blind x) : BlindOrHalts x :=
  fun s b => Or.inl (h s b)

theorem returnFromRoutine_blindOrHalts : BlindOrHalts returnFromRoutine := by
  intro s b
  unfold returnFromRoutine
  rw [pop_bind, pop_bind]
  by_cases h : s.memory.read s.registers.rsp = haltAddress
  · right
    rw [if_pos h]
    exact ⟨_, rfl, rfl⟩
  · left
    have h' : (s.mark b).memory.read (s.mark b).registers.rsp ≠ haltAddress := h
    rw [if_neg h, if_neg h']
    rfl

theorem instr_blindOrHalts (labels : LabelTable) (i : Instr) : BlindOrHalts (instr labels i) := by
  unfold instr
  split
  case h_1 => exact ((blind_readOperand _).bind blind_push).orHalts
  case h_2 => exact (blind_pop.bind (blind_writeOperand _)).orHalts
  case h_3 => exact ((blind_readOperand _).bind (blind_writeOperand _)).orHalts
  case h_4 =>
    split
    · exact ((blind_address _ _).bind (blind_writeOperand _)).orHalts
    · exact (blind_throw _).orHalts
  case h_5 => exact ((blind_readOperand _).bind fun _ => blind_writeOperand _ _).orHalts
  case h_6 => exact ((blind_arithmetic _ _ _).bind (blind_writeOperand _)).orHalts
  case h_7 => exact ((blind_arithmetic _ _ _).bind (blind_writeOperand _)).orHalts
  case h_8 => exact ((blind_arithmetic _ _ _).bind fun _ => blind_pure _).orHalts
  case h_9 => exact (blind_multiply _ _).orHalts
  case h_10 => exact ((blind_readOperand _).bind fun _ => blind_throw _).orHalts
  case h_11 => exact (blind_modify fun _ _ => rfl).orHalts
  case h_12 => exact ((blind_readOperand _).bind blind_divide).orHalts
  case h_13 => exact (blind_setIf _ _).orHalts
  case h_14 => exact (blind_setIf _ _).orHalts
  case h_15 => exact (blind_setIf _ _).orHalts
  case h_16 => exact (blind_setIf _ _).orHalts
  case h_17 => exact (blind_jump _ _).orHalts
  case h_18 =>
    refine (blind_get_bind (fun _ _ => rfl) fun s => ?_).orHalts
    split
    · split
      · exact blind_jump _ _
      · exact blind_throw _
    · exact blind_pure _
  case h_19 => exact returnFromRoutine_blindOrHalts
  case h_20 => exact (blind_throw _).orHalts
  case h_21 => exact (blind_throw _).orHalts

end Exec

/-! ## Steps -/

namespace Listing

variable {l : Listing} {Q : State → Prop} {σ τ : State} {n m : Nat}

/-- A step does the same whatever the flag is, unless it makes the machine halt. -/
theorem step_mark (l : Listing) (σ : State) (b : Bool) :
    l.step (σ.mark b) = markOutcome b (l.step σ) ∨
      ∃ τ, l.step σ = .ok () τ ∧ τ.halted = true := by
  have hpc : (σ.mark b).pc = σ.pc := rfl
  have htick : (σ.mark b).tick = σ.tick.mark b := rfl
  rw [step_eq, step_eq, hpc, htick]
  cases l.fetch? σ.pc with
  | none => exact Or.inl rfl
  | some p =>
      simp only
      rcases Exec.instr_blindOrHalts l.labels p.instr σ.tick b with hsame | ⟨t, ht, hhalted⟩
      · left
        rw [hsame]
        cases Exec.instr l.labels p.instr σ.tick <;> rfl
      · right
        rw [ht]
        exact ⟨t, rfl, hhalted⟩

/-- Takes `n` steps, unless one of them fails. -/
def stepFor (l : Listing) : Nat → State → EStateM.Result Fault State Unit
  | 0, s => .ok () s
  | n + 1, s =>
    match l.step s with
    | .ok () s' => stepFor l n s'
    | .error fault s' => .error fault s'

theorem Moves.running (h : l.Moves Q n σ τ) (hτ : τ.halted = false) : σ.halted = false := by
  cases h with
  | refl => exact hτ
  | step _ hr _ _ => exact hr.1

/-- Steps of a run are steps from the same state with any flag. -/
theorem Moves.stepFor_add (h : l.Moves Q n σ τ) (hτ : τ.halted = false) (b : Bool) (rest : Nat) :
    l.stepFor (n + rest) (σ.mark b) = l.stepFor rest (τ.mark b) := by
  induction h with
  | refl => rw [Nat.zero_add]
  | @step n σ υ τ _ _ hs hm ih =>
      have hstep : l.step (σ.mark b) = .ok () (υ.mark b) := by
        rcases l.step_mark σ b with hsame | ⟨υ', hυ', hhalted⟩
        · rw [hsame, hs]
          rfl
        · cases hs.symm.trans hυ'
          cases (hm.running hτ).symm.trans hhalted
      rw [Nat.add_right_comm, stepFor, hstep]
      exact ih hτ

theorem Moves.stepFor_fails (h : l.Moves Q n σ τ) {cause : FaultCause} (hτ : l.Fails cause τ)
    (b : Bool) (hn : n < m) : ∃ i υ, l.stepFor m (σ.mark b) = .error ⟨cause, i⟩ υ := by
  obtain ⟨⟨hrun, -⟩, i, υ, hs⟩ := hτ
  have hstep : l.step (τ.mark b) = .error ⟨cause, i⟩ (υ.mark b) := by
    rcases l.step_mark τ b with hsame | ⟨υ', hυ', -⟩
    · rw [hsame, hs]
      rfl
    · cases hs.symm.trans hυ'
  obtain ⟨k, rfl⟩ : ∃ k, m = n + (k + 1) := ⟨m - n - 1, by omega⟩
  refine ⟨i, υ.mark b, ?_⟩
  rw [h.stepFor_add hrun b, stepFor, hstep]

end Listing

end StackLang
