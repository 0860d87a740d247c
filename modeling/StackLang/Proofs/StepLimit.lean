import StackLang.Proofs.MachineFaults
import StackLang.Proofs.StepCount

/-!
# The step limit

A run under a step limit is the beginning of the runs under all larger ones. If it comes to an end
of its own, they come to the same end; if it is cut off, they go on from the state it was left in.
-/

namespace StackLang

/-- The same configuration with another step limit. -/
def MachineConfig.limitedTo (config : MachineConfig) (limit : Nat) (h : 0 < limit) :
    MachineConfig :=
  { config with maxSteps := limit, maxSteps_pos := h }

theorem MachineConfig.stackTop_limitedTo (config : MachineConfig) (limit : Nat) (h : 0 < limit) :
    (config.limitedTo limit h).stackTop = config.stackTop := rfl

namespace Listing

variable {l : Listing} {Q : State → Prop} {σ τ υ : State} {n r r' : Nat} {fault : Fault}

/-- No step reports the step limit: that is left to the run. -/
theorem step_ne_stepLimit (h : l.step σ = .error fault τ) (limit : Nat) :
    fault ≠ ⟨.stepLimit limit, none⟩ := by
  rintro rfl
  unfold step at h
  split at h
  · cases h
  · split at h <;> cases h

section

variable (entry : String) (limit : Nat)

theorem Moves.runFor_ranPastEnd (h : l.Moves Q n σ τ) (hτ : τ.halted = false)
    (hpc : l.instructions.size ≤ τ.pc) (hr : n < r) :
    l.runFor entry limit r σ = .error ⟨.ranPastEnd entry, none⟩ τ := by
  obtain ⟨k, rfl⟩ : ∃ k, r = n + (k + 1) := ⟨r - n - 1, by omega⟩
  rw [h.runFor_add, runFor, hτ, if_neg (by simp), if_pos hpc]

theorem Moves.runFor_error (h : l.Moves Q n σ υ) (hυ : l.Ready υ) (hs : l.step υ = .error fault τ)
    (hr : n < r) : l.runFor entry limit r σ = .error fault τ := by
  obtain ⟨i, τ', hs', hrun⟩ := h.runFor_fails entry limit ⟨hυ, fault.instruction, τ, hs⟩ hr
  rw [hs] at hs'
  rw [hrun, hs']

end

/-- With steps to spare, a run either ends as before or goes on from where it was cut off. -/
theorem runFor_longer (l : Listing) (entry : String) (limit limit' : Nat) (hr : r ≤ r')
    (σ : State) :
    (l.runFor entry limit' r' σ = l.runFor entry limit r σ ∧
      ∀ τ, l.runFor entry limit r σ ≠ .error ⟨.stepLimit limit, none⟩ τ) ∨
    ∃ τ, l.Moves (fun _ => True) r σ τ ∧ τ.halted = false ∧
      l.runFor entry limit r σ = .error ⟨.stepLimit limit, none⟩ τ ∧
      l.runFor entry limit' r' σ = l.runFor entry limit' (r' - r) τ := by
  have hends := l.runFor_ends entry limit r σ
  generalize l.runFor entry limit r σ = result at hends ⊢
  cases hends with
  | halted hn hm hτ =>
      left
      exact ⟨hm.runFor_halted entry limit' hτ (hn.trans hr), by simp⟩
  | stepLimit hm hτ =>
      right
      refine ⟨_, hm, hτ, rfl, ?_⟩
      rw [← hm.runFor_add entry limit' (r' - r), Nat.add_sub_cancel' hr]
  | ranPastEnd hn hm hτ hpc =>
      left
      exact ⟨hm.runFor_ranPastEnd entry limit' hτ hpc (hn.trans_le hr), by simp⟩
  | fails hn hm hυ hfail =>
      left
      refine ⟨hm.runFor_error entry limit' hυ hfail (hn.trans_le hr), fun τ heq => ?_⟩
      cases heq
      exact step_ne_stepLimit hfail limit rfl

/-- A run that halts has counted its steps, and at least one if there was one to take. -/
theorem runFor_ok_steps {entry : String} {limit : Nat} (h : l.runFor entry limit r σ = .ok () τ) :
    τ.steps ≤ σ.steps + r ∧ (σ.halted = false → σ.steps < τ.steps) := by
  have hends := l.runFor_ends entry limit r σ
  rw [h] at hends
  cases hends with
  | halted hn hm hτ =>
      have hsteps := hm.steps
      refine ⟨by omega, fun hσ => ?_⟩
      cases hm with
      | refl =>
          rw [hτ] at hσ
          cases hσ
      | step _ _ _ _ => omega

/-! ## Runs -/

section

variable {config small large : MachineConfig} {entry : Option String} {pc : Int}

/-- The steps that a result counts are within the limit. -/
theorem run_ok_steps_le {s : State} {result : RunResult}
    (h : l.run config entry s = .ok result τ) : result.steps ≤ config.maxSteps := by
  cases hpc : l.labels.find? (l.startLabel entry) with
  | none =>
      rw [run_of_undefined hpc] at h
      cases h
  | some pc =>
      rw [run_of_defined hpc, answer_ok_iff] at h
      obtain ⟨hrun, rfl⟩ := h
      exact (runFor_ok_steps hrun).1.trans (Nat.zero_add _).le

/-- With a larger limit a run either does the same or goes on from where it was cut off. -/
theorem run_longer (l : Listing) (entry : Option String) (htop : small.stackTop = large.stackTop)
    (hle : small.maxSteps ≤ large.maxSteps) (s : State) :
    (l.run large entry s = l.run small entry s ∧
      ∀ τ, l.run small entry s ≠ .error ⟨.stepLimit small.maxSteps, none⟩ τ) ∨
    ∃ τ, l.Reaches large entry small.maxSteps τ ∧ τ.halted = false ∧
      l.run small entry s = .error ⟨.stepLimit small.maxSteps, none⟩ τ ∧
      l.run large entry s = answer (l.runFor (l.startLabel entry) large.maxSteps
        (large.maxSteps - small.maxSteps) τ) := by
  cases hpc : l.labels.find? (l.startLabel entry) with
  | none =>
      left
      rw [run_of_undefined hpc, run_of_undefined hpc]
      exact ⟨rfl, by simp⟩
  | some pc =>
      have hstart : startState small pc = startState large pc := by
        simp only [startState, htop]
      rw [run_of_defined hpc, run_of_defined hpc, hstart]
      rcases l.runFor_longer (l.startLabel entry) small.maxSteps large.maxSteps hle
        (startState large pc) with ⟨hsame, hfree⟩ | ⟨τ, hm, hτ, hcut, hmore⟩
      · left
        rw [hsame]
        exact ⟨rfl, fun τ h => hfree τ (answer_error_iff.mp h)⟩
      · right
        rw [hcut, hmore]
        exact ⟨τ, ⟨pc, hpc, hm⟩, hτ, rfl, rfl⟩

end

theorem Reaches.steps {config : MachineConfig} {entry : Option String}
    (h : l.Reaches config entry n σ) : σ.steps = n := by
  obtain ⟨pc, -, hm⟩ := h
  exact hm.steps.trans (Nat.zero_add n)

/-- Runs that differ in their step limits only. The one with the smaller limit does what the other
one does, or it is cut off, and then the other one passes the state it is left in and goes on from
there. It halts exactly if it is allowed the steps that the other one needs. -/
theorem run_truncated (l : Listing) {small large : MachineConfig}
    (htop : small.stackTop = large.stackTop) (hle : small.maxSteps ≤ large.maxSteps)
    (entry : Option String) (s : State) :
    ((∀ τ, l.run small entry s ≠ .error ⟨.stepLimit small.maxSteps, none⟩ τ) →
      l.run large entry s = l.run small entry s) ∧
    (∀ τ, l.run small entry s = .error ⟨.stepLimit small.maxSteps, none⟩ τ →
      τ.steps = small.maxSteps ∧ l.Reaches large entry small.maxSteps τ ∧
        l.run large entry s = answer (l.runFor (l.startLabel entry) large.maxSteps
          (large.maxSteps - small.maxSteps) τ)) ∧
    ∀ result τ, l.run large entry s = .ok result τ →
      (l.run small entry s = .ok result τ ↔ result.steps ≤ small.maxSteps) := by
  rcases l.run_longer entry htop hle s with
    ⟨hsame, hfree⟩ | ⟨υ, hreaches, hυ, hcut, hmore⟩
  · refine ⟨fun _ => hsame, fun τ h => absurd h (hfree τ), fun result τ h => ?_⟩
    rw [hsame] at h
    exact iff_of_true h (run_ok_steps_le h)
  · refine ⟨fun h => absurd hcut (h υ), fun τ h => ?_, fun result τ h => ?_⟩
    · rw [hcut] at h
      cases h
      exact ⟨hreaches.steps, hreaches, hmore⟩
    · rw [hmore, answer_ok_iff] at h
      obtain ⟨hrun, rfl⟩ := h
      have hcount : υ.steps < τ.result.steps := (runFor_ok_steps hrun).2 hυ
      rw [hreaches.steps] at hcount
      refine iff_of_false ?_ (by omega)
      rw [hcut]
      simp

/-- Counts down from three, which takes thirteen steps. -/
def countdown : String :=
  "f: mov rax, 3\n.again: sub rax, 1\ncmp rax, 0\nje .done\njmp .again\n.done: ret\n"

/-- The last step counts: with one step less the routine does not return. -/
theorem run_truncated_countdown :
    ∃ l result τ υ, read countdown = .ok l ∧ result.steps = 13 ∧
      l.run (MachineConfig.limitedTo {} 13 (by decide)) (some "f") {} = .ok result τ ∧
      l.run {} (some "f") {} = .ok result τ ∧
      l.run (MachineConfig.limitedTo {} 12 (by decide)) (some "f") {} =
        .error ⟨.stepLimit 12, none⟩ υ ∧
      υ.steps = 12 ∧ l.Reaches {} (some "f") 12 υ := by
  have hcheck : ((read countdown).toOption.any fun l =>
      (match l.run (MachineConfig.limitedTo {} 13 (by decide)) (some "f") {} with
      | .error _ _ => false
      | .ok result _ => result.steps = 13) &&
      match l.run (MachineConfig.limitedTo {} 12 (by decide)) (some "f") {} with
      | .error fault _ => fault = ⟨.stepLimit 12, none⟩
      | .ok _ _ => false) = true := by
    decide +kernel
  obtain ⟨l, hl, hcheck⟩ := exists_ok_of_any hcheck
  rw [Bool.and_eq_true] at hcheck
  obtain ⟨hlong, hshort⟩ := hcheck
  cases hrun : l.run (MachineConfig.limitedTo {} 13 (by decide)) (some "f") {} with
  | error fault τ =>
      rw [hrun] at hlong
      cases hlong
  | ok result τ =>
      cases hcut : l.run (MachineConfig.limitedTo {} 12 (by decide)) (some "f") {} with
      | ok result' υ =>
          rw [hcut] at hshort
          cases hshort
      | error fault υ =>
          rw [hrun] at hlong
          rw [hcut] at hshort
          obtain rfl := of_decide_eq_true hshort
          obtain ⟨hsame, -, -⟩ := l.run_truncated
            (MachineConfig.stackTop_limitedTo {} 13 (by decide)) (by decide) (some "f") {}
          obtain ⟨-, hleft, -⟩ := l.run_truncated
            (MachineConfig.stackTop_limitedTo {} 12 (by decide)) (by decide) (some "f") {}
          obtain ⟨hcount, hreaches, -⟩ := hleft υ hcut
          refine ⟨l, result, τ, υ, hl, of_decide_eq_true hlong, hrun, ?_, hcut, hcount, hreaches⟩
          rw [hsame fun τ' h => ?_, hrun]
          rw [hrun] at h
          cases h

end Listing

end StackLang
