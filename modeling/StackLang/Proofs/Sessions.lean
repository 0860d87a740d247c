import StackLang.Machine.Session
import StackLang.Proofs.MachineFaults
import StackLang.Proofs.StepCount

/-!
# Sessions

What stays true of a machine however it is driven, failures included: each register has a name of
its own, the program counter stays within the listing, and no run takes more steps than it may.
-/

namespace StackLang

/-! ## Register files -/

namespace Register

/-- The register is one of the machine, or has a name that none of those has. -/
def Settled (r : Register) : Prop :=
  ∀ name, r = .other name → ofName? name = none

theorem settled_of_known {r : Register} (h : r ∈ known) : r.Settled := by
  rintro name rfl
  exact absurd h (by simp [known])

theorem settled_ofName (name : String) : (ofName name).Settled := by
  cases h : ofName? name with
  | some r =>
      rw [ofName, h]
      exact settled_of_known (List.mem_of_find?_eq_some h)
  | none =>
      rw [ofName, h]
      intro other hother
      cases hother
      exact h

end Register

namespace Registers

/-- The registers that came into being by being written have names of their own. -/
structure Separate (r : Registers) : Prop where
  foreign : ∀ e ∈ r.extra, Register.ofName? e.1 = none
  nodup : (r.extra.map Prod.fst).Nodup

variable {r : Registers}

theorem separate_of_extra_nil (h : r.extra = []) : r.Separate where
  foreign := by simp [h]
  nodup := by simp [h]

theorem Separate.write (h : r.Separate) {reg : Register} (hreg : reg.Settled) (w : Word) :
    (r.write reg w).Separate := by
  cases reg with
  | other name =>
      simp only [Registers.write]
      split
      · have hnames : (r.extra.map fun e => if e.1 == name then (name, w) else e).map Prod.fst =
            r.extra.map Prod.fst := by
          rw [List.map_map]
          refine List.map_congr_left fun e _ => ?_
          by_cases he : e.1 = name <;> simp [he]
        refine ⟨fun e he => ?_, hnames ▸ h.nodup⟩
        have hname : e.1 ∈ r.extra.map Prod.fst := hnames ▸ List.mem_map_of_mem he
        obtain ⟨e', he', heq⟩ := List.mem_map.mp hname
        exact heq ▸ h.foreign e' he'
      · next hnew =>
        have hfresh : name ∉ r.extra.map Prod.fst := by
          intro hmem
          obtain ⟨e, he, rfl⟩ := List.mem_map.mp hmem
          exact hnew (List.find?_isSome.mpr ⟨e, he, beq_self_eq_true _⟩)
        refine ⟨fun e he => ?_, ?_⟩
        · rcases List.mem_append.mp he with he | he
          · exact h.foreign e he
          · rw [List.mem_singleton.mp he]
            exact hreg name rfl
        · rw [List.map_append]
          refine List.nodup_append.mpr ⟨h.nodup, List.nodup_singleton _, ?_⟩
          rintro a ha b hb rfl
          obtain rfl : a = name := List.mem_singleton.mp hb
          exact hfresh ha
  | _ => exact ⟨h.foreign, h.nodup⟩

end Registers

/-! ## Steps and runs -/

namespace Exec

theorem steady_separate (labels : LabelTable) :
    Steady labels Register.Settled fun s => s.registers.Separate where
  rax := Register.settled_of_known (by decide)
  rdx := Register.settled_of_known (by decide)
  rsp := Register.settled_of_known (by decide)
  register := fun _ _ w hr hs => hs.write hr w
  memory := fun _ _ hs => hs
  flags := fun _ _ hs => hs
  jump := fun _ _ _ _ hs => hs
  halt := fun _ hs => hs

end Exec

namespace Listing

variable {l : Listing} {σ : State}

theorem Regular.step_separate (hl : l.Regular) (hσ : σ.registers.Separate) :
    (endState (l.step σ)).registers.Separate := by
  have hsettled : ∀ p ∈ l.fetch? σ.pc, ∀ r, .reg r ∈ p.instr.operands → r.Settled := by
    intro p hp r hr
    have hread := (hl.readable p (mem_of_fetch? hp)).operand _ hr
    exact Register.settled_of_known hread.2
  rcases step_maintains (Exec.steady_separate l.labels) hsettled hσ with hkept | hkept
  · exact hkept
  · rw [hkept]
    exact hσ

/-- What a machine keeps up between actions. -/
structure Kept (l : Listing) (σ : State) : Prop where
  separate : σ.registers.Separate
  bounds : l.InBounds σ

theorem kept_initial : l.Kept {} where
  separate := Registers.separate_of_extra_nil rfl
  bounds := ⟨le_rfl, Int.natCast_nonneg _⟩

theorem Regular.step_kept (hl : l.Regular) (hσ : l.Kept σ) : l.Kept (endState (l.step σ)) where
  separate := hl.step_separate hσ.separate
  bounds := hl.step_inBounds hσ.bounds

theorem Regular.moves_kept (hl : l.Regular) {Q : State → Prop} {n : Nat} {τ : State}
    (h : l.Moves Q n σ τ) (hσ : l.Kept σ) : l.Kept τ := by
  refine h.keeps (fun σ τ _ hstep hσ => ?_) hσ
  have hkept := hl.step_kept hσ
  rw [hstep] at hkept
  exact hkept

theorem step_steps_le (l : Listing) (σ : State) : (endState (l.step σ)).steps ≤ σ.steps + 1 := by
  rcases step_steps l σ with hcount | hnone
  · exact hcount.le
  · rw [hnone]
    exact Nat.le_succ _

/-- A run keeps up what a machine keeps up, and takes no more steps than it may. -/
theorem Regular.runFor_kept (hl : l.Regular) (entry : String) (limit r : Nat) (hσ : l.Kept σ) :
    l.Kept (endState (l.runFor entry limit r σ)) ∧
      (endState (l.runFor entry limit r σ)).steps ≤ σ.steps + r := by
  have hends := l.runFor_ends entry limit r σ
  generalize l.runFor entry limit r σ = result at hends ⊢
  cases hends with
  | halted hn hm _ => exact ⟨hl.moves_kept hm hσ, by rw [endState, hm.steps]; omega⟩
  | stepLimit hm _ => exact ⟨hl.moves_kept hm hσ, hm.steps.le⟩
  | ranPastEnd hn hm _ _ => exact ⟨hl.moves_kept hm hσ, by rw [endState, hm.steps]; omega⟩
  | @fails n υ τ fault hn hm _ hfail =>
      have hkept := hl.step_kept (hl.moves_kept hm hσ)
      have hcount := step_steps_le l υ
      rw [hfail] at hkept hcount
      exact ⟨hkept, hcount.trans (by rw [hm.steps]; omega)⟩

theorem Regular.startState_kept (hl : l.Regular) (config : MachineConfig) {name : String} {pc : Int}
    (h : l.labels.find? name = some pc) : l.Kept (startState config pc) where
  separate := Registers.separate_of_extra_nil rfl
  bounds := hl.label name pc h

/-- A run ends as the steps from its start do, if there is a label to start at. -/
theorem endState_run (l : Listing) (config : MachineConfig) (entry : Option String) (σ : State) :
    endState (l.run config entry σ) =
      match l.labels.find? (l.startLabel entry) with
      | none => σ
      | some pc => endState
          (l.runFor (l.startLabel entry) config.maxSteps config.maxSteps
            (startState config pc)) := by
  cases hpc : l.labels.find? (l.startLabel entry) with
  | none =>
      rw [run_of_undefined hpc]
      rfl
  | some pc =>
      rw [run_of_defined hpc]
      simp only
      cases l.runFor (l.startLabel entry) config.maxSteps config.maxSteps (startState config pc) <;>
        rfl

theorem Regular.run_kept (hl : l.Regular) (config : MachineConfig) (entry : Option String)
    (hσ : l.Kept σ) : l.Kept (endState (l.run config entry σ)) := by
  rw [endState_run]
  cases hpc : l.labels.find? (l.startLabel entry) with
  | none => exact hσ
  | some pc => exact (hl.runFor_kept _ _ _ (hl.startState_kept config hpc)).1

theorem Regular.run_steps_le (hl : l.Regular) (config : MachineConfig) {entry : Option String}
    {pc : Int} (hpc : l.labels.find? (l.startLabel entry) = some pc) (σ : State) :
    (endState (l.run config entry σ)).steps ≤ config.maxSteps := by
  rw [endState_run, hpc]
  have hsteps := (hl.runFor_kept (l.startLabel entry) config.maxSteps config.maxSteps
    (hl.startState_kept config hpc)).2
  exact hsteps.trans (Nat.zero_add _).le

end Listing

/-! ## Actions -/

namespace Machine

variable {m : Machine}

theorem perform_step (m : Machine) :
    (m.perform .step).2 = m.withState (endState (m.listing.step m.state)) := by
  simp only [perform]
  cases m.listing.step m.state <;> rfl

theorem perform_run (m : Machine) (entry : Option String) :
    (m.perform (.run entry)).2 =
      m.withState (endState (m.listing.run m.config entry m.state)) := by
  simp only [perform]
  cases m.listing.run m.config entry m.state <;> rfl

theorem perform_readRegister (m : Machine) (name : String) :
    (m.perform (.readRegister name)).2 = m := by
  simp only [perform]
  cases m.state.registers.read? (.ofName name) <;> rfl

/-- An action changes the state only. -/
theorem perform_fixed (m : Machine) (a : Action) :
    (m.perform a).2.listing = m.listing ∧ (m.perform a).2.config = m.config := by
  cases a with
  | step =>
      rw [perform_step]
      exact ⟨rfl, rfl⟩
  | run entry =>
      rw [perform_run]
      exact ⟨rfl, rfl⟩
  | readRegister name =>
      rw [perform_readRegister]
      exact ⟨rfl, rfl⟩
  | _ => exact ⟨rfl, rfl⟩

theorem perform_kept (hl : m.listing.Regular) (hm : m.listing.Kept m.state) {a : Action}
    (ha : ∀ pc, a ≠ .setPc pc) : m.listing.Kept (m.perform a).2.state := by
  cases a with
  | step =>
      rw [perform_step]
      exact hl.step_kept hm
  | run entry =>
      rw [perform_run]
      exact hl.run_kept m.config entry hm
  | reset => exact Listing.kept_initial
  | readRegister name =>
      rw [perform_readRegister]
      exact hm
  | writeRegister name value =>
      exact ⟨hm.separate.write (Register.settled_ofName name) _, hm.bounds⟩
  | readMemory address => exact hm
  | writeMemory address value => exact ⟨hm.separate, hm.bounds⟩
  | setPc pc => exact absurd rfl (ha pc)
  | setFlags flags => exact ⟨hm.separate, hm.bounds⟩
  | toSigned value => exact hm

/-- Each of a number of actions starts from a machine that keeps up the same. -/
theorem performAll_kept {actions : List Action} (hl : m.listing.Regular)
    (hm : m.listing.Kept m.state) (hfree : ∀ a ∈ actions, ∀ pc, a ≠ .setPc pc) {i : Nat}
    {a : Action} (ha : actions[i]? = some a) :
    ∃ before : Machine, before.listing = m.listing ∧ before.config = m.config ∧
      m.listing.Kept before.state ∧ (m.performAll actions)[i]? = some (before.perform a) := by
  induction actions generalizing m i with
  | nil => cases ha
  | cons first rest ih =>
      cases i with
      | zero =>
          cases ha
          exact ⟨m, rfl, rfl, hm, rfl⟩
      | succ i =>
          obtain ⟨hlisting, hconfig⟩ := perform_fixed m first
          have hkept := perform_kept hl hm (hfree first List.mem_cons_self)
          rw [← hlisting] at hl hkept
          obtain ⟨before, hbl, hbc, hbk, hbi⟩ := ih hl hkept
            (fun a ha => hfree a (List.mem_cons_of_mem _ ha)) ha
          rw [hlisting] at hbl hbk
          exact ⟨before, hbl, hbc.trans hconfig, hbk, hbi⟩

end Machine

end StackLang
