import Mathlib.Tactic
import StackLang.Machine.Run

/-!
# Sequences of steps

What a run does, told from the steps it takes: it halts or fails after the steps that lead there,
and is cut off by the step limit before.
-/

namespace StackLang

namespace Listing

/-- The machine is at an instruction. -/
def Ready (l : Listing) (σ : State) : Prop :=
  σ.halted = false ∧ σ.pc < l.instructions.size

/-- `n` steps that succeed, from states that all satisfy `Q`. -/
inductive Moves (l : Listing) (Q : State → Prop) : Nat → State → State → Prop where
  | refl (σ : State) : Moves l Q 0 σ σ
  | step {n σ τ υ} : Q σ → l.Ready σ → l.step σ = .ok () τ → Moves l Q n τ υ →
      Moves l Q (n + 1) σ υ

/-- The next step fails for the given cause. -/
def Fails (l : Listing) (cause : FaultCause) (σ : State) : Prop :=
  l.Ready σ ∧ ∃ i τ, l.step σ = .error ⟨cause, i⟩ τ

variable {l : Listing} {Q R : State → Prop} {n m : Nat} {σ τ υ : State}

namespace Moves

theorem one (hq : Q σ) (hr : l.Ready σ) (hs : l.step σ = .ok () τ) : Moves l Q 1 σ τ :=
  .step hq hr hs (.refl τ)

theorem trans (h : Moves l Q n σ τ) (h' : Moves l Q m τ υ) : Moves l Q (n + m) σ υ := by
  induction h with
  | refl => simpa using h'
  | @step n σ τ υ hq hr hs _ ih =>
      rw [Nat.add_right_comm]
      exact .step hq hr hs (ih h')

theorem mono (hqr : ∀ σ, Q σ → R σ) (h : Moves l Q n σ τ) : Moves l R n σ τ := by
  induction h with
  | refl => exact .refl _
  | step hq hr hs _ ih => exact .step (hqr _ hq) hr hs ih

/-- The first steps of a longer sequence. -/
theorem take (h : Moves l Q (n + m) σ υ) : ∃ τ, Moves l Q n σ τ ∧ Moves l Q m τ υ := by
  induction n generalizing σ with
  | zero => exact ⟨σ, .refl σ, by simpa using h⟩
  | succ n ih =>
      rw [Nat.add_right_comm] at h
      cases h with
      | step hq hr hs hrest =>
          obtain ⟨τ, hn, hm⟩ := ih hrest
          exact ⟨τ, .step hq hr hs hn, hm⟩

theorem ready (h : Moves l Q (n + 1) σ τ) : Q σ ∧ l.Ready σ := by
  cases h with
  | step hq hr _ _ => exact ⟨hq, hr⟩

/-- Steps from one state lead to one state. -/
theorem unique (h : Moves l Q n σ τ) (h' : Moves l R n σ υ) : τ = υ := by
  induction h generalizing υ with
  | refl =>
      cases h'
      rfl
  | step _ _ hs _ ih =>
      cases h' with
      | step _ _ hs' hrest =>
          rw [hs] at hs'
          cases hs'
          exact ih hrest

/-- Shorter sequences end in states that the longer ones pass. -/
theorem passes (h : Moves l Q n σ τ) (h' : Moves l R m σ υ) (hlt : m < n) : Q υ := by
  obtain ⟨k, rfl⟩ : ∃ k, n = m + (k + 1) := ⟨n - m - 1, by omega⟩
  obtain ⟨υ', hm, hk⟩ := h.take
  rw [h'.unique hm]
  exact hk.ready.1

/-- A sequence that ends where no step succeeds is the longest one. -/
theorem le_of_stuck (h : Moves l Q n σ τ) (hstuck : ∀ υ, ¬ (l.Ready τ ∧ l.step τ = .ok () υ))
    (h' : Moves l R m σ υ) : m ≤ n := by
  by_contra hlt
  obtain ⟨k, rfl⟩ : ∃ k, m = n + (k + 1) := ⟨m - n - 1, by omega⟩
  obtain ⟨τ', hn, hk⟩ := h'.take
  obtain rfl := h.unique hn
  cases hk with
  | step _ hr hs _ => exact hstuck _ ⟨hr, hs⟩

theorem passes_of_stuck (h : Moves l Q n σ τ) (hτ : Q τ)
    (hstuck : ∀ υ, ¬ (l.Ready τ ∧ l.step τ = .ok () υ)) (h' : Moves l R m σ υ) : Q υ := by
  rcases Nat.lt_or_eq_of_le (h.le_of_stuck hstuck h') with hlt | rfl
  · exact h.passes h' hlt
  · rwa [h'.unique h]

theorem stuck_of_halted (h : τ.halted = true) (υ : State) :
    ¬ (l.Ready τ ∧ l.step τ = .ok () υ) := by
  rintro ⟨⟨hrun, -⟩, -⟩
  rw [h] at hrun
  cases hrun

theorem stuck_of_fails {cause : FaultCause} (h : l.Fails cause τ) (υ : State) :
    ¬ (l.Ready τ ∧ l.step τ = .ok () υ) := by
  rintro ⟨-, hs⟩
  obtain ⟨-, i, τ', he⟩ := h
  rw [he] at hs
  cases hs

/-- What every step preserves, a sequence of steps preserves. -/
theorem keeps {I : State → Prop}
    (hstep : ∀ σ τ, l.Ready σ → l.step σ = .ok () τ → I σ → I τ) (h : Moves l Q n σ τ) (hσ : I σ) :
    I τ := by
  induction h with
  | refl => exact hσ
  | step _ hr hs _ ih => exact ih (hstep _ _ hr hs hσ)

/-! ## Runs -/

variable (entry : String) (limit : Nat)

theorem runFor_add (h : Moves l Q n σ τ) (rest : Nat) :
    l.runFor entry limit (n + rest) σ = l.runFor entry limit rest τ := by
  induction h with
  | refl => rw [Nat.zero_add]
  | step _ hr hs _ ih =>
      obtain ⟨hrun, hlt⟩ := hr
      rw [Nat.add_right_comm, runFor, hrun, if_neg (by simp), if_neg (by omega), hs]
      exact ih

/-- A run that could go on is cut off by its limit. -/
theorem runFor_cut (h : Moves l Q n σ τ) (hτ : τ.halted = false) :
    l.runFor entry limit n σ = .error ⟨.stepLimit limit, none⟩ τ := by
  have hrun := h.runFor_add entry limit 0
  rw [Nat.add_zero] at hrun
  rw [hrun, runFor, hτ, if_neg (by simp)]

theorem runFor_cut_of_lt (h : Moves l Q n σ τ) {r : Nat} (hr : r < n) :
    ∃ υ, l.runFor entry limit r σ = .error ⟨.stepLimit limit, none⟩ υ := by
  obtain ⟨k, rfl⟩ : ∃ k, n = r + (k + 1) := ⟨n - r - 1, by omega⟩
  obtain ⟨υ, hn, hk⟩ := h.take
  exact ⟨υ, hn.runFor_cut entry limit hk.ready.2.1⟩

theorem runFor_halted (h : Moves l Q n σ τ) (hτ : τ.halted = true) {r : Nat} (hr : n ≤ r) :
    l.runFor entry limit r σ = .ok () τ := by
  obtain ⟨k, rfl⟩ := Nat.exists_eq_add_of_le hr
  rw [h.runFor_add]
  cases k <;> simp [runFor, hτ]

theorem runFor_fails (h : Moves l Q n σ τ) {cause : FaultCause} (hτ : l.Fails cause τ) {r : Nat}
    (hr : n < r) :
    ∃ i υ, l.step τ = .error ⟨cause, i⟩ υ ∧ l.runFor entry limit r σ = .error ⟨cause, i⟩ υ := by
  obtain ⟨k, rfl⟩ : ∃ k, r = n + (k + 1) := ⟨r - n - 1, by omega⟩
  obtain ⟨⟨hrun, hlt⟩, i, υ, hs⟩ := hτ
  refine ⟨i, υ, hs, ?_⟩
  rw [h.runFor_add, runFor, hrun, if_neg (by simp), if_neg (by omega), hs]

end Moves

/-- How a run from `σ` with `r` steps to go comes to its end: it halts, is cut off, runs past the
last instruction or fails at a step. -/
inductive Ends (l : Listing) (entry : String) (limit r : Nat) (σ : State) :
    EStateM.Result Fault State Unit → Prop where
  | halted {n : Nat} {τ : State} : n ≤ r → l.Moves (fun _ => True) n σ τ → τ.halted = true →
      Ends l entry limit r σ (.ok () τ)
  | stepLimit {τ : State} : l.Moves (fun _ => True) r σ τ → τ.halted = false →
      Ends l entry limit r σ (.error ⟨.stepLimit limit, none⟩ τ)
  | ranPastEnd {n : Nat} {τ : State} : n < r → l.Moves (fun _ => True) n σ τ → τ.halted = false →
      l.instructions.size ≤ τ.pc → Ends l entry limit r σ (.error ⟨.ranPastEnd entry, none⟩ τ)
  | fails {n : Nat} {υ τ : State} {fault : Fault} : n < r → l.Moves (fun _ => True) n σ υ →
      l.Ready υ → l.step υ = .error fault τ → Ends l entry limit r σ (.error fault τ)

theorem Ends.step {entry : String} {limit r : Nat} {result : EStateM.Result Fault State Unit}
    (hr : l.Ready σ) (hs : l.step σ = .ok () τ) (h : l.Ends entry limit r τ result) :
    l.Ends entry limit (r + 1) σ result := by
  cases h with
  | halted hn hm hτ => exact .halted (Nat.succ_le_succ hn) (.step trivial hr hs hm) hτ
  | stepLimit hm hτ => exact .stepLimit (.step trivial hr hs hm) hτ
  | ranPastEnd hn hm hτ hpc =>
      exact .ranPastEnd (Nat.succ_lt_succ hn) (.step trivial hr hs hm) hτ hpc
  | fails hn hm hυ hfail => exact .fails (Nat.succ_lt_succ hn) (.step trivial hr hs hm) hυ hfail

theorem runFor_ends (l : Listing) (entry : String) (limit r : Nat) (σ : State) :
    l.Ends entry limit r σ (l.runFor entry limit r σ) := by
  induction r generalizing σ with
  | zero =>
      rw [runFor]
      cases hσ : σ.halted with
      | true => exact .halted le_rfl (.refl σ) hσ
      | false => exact .stepLimit (.refl σ) hσ
  | succ r ih =>
      rw [runFor]
      cases hσ : σ.halted with
      | true => exact .halted (Nat.zero_le _) (.refl σ) hσ
      | false =>
          rw [if_neg (by simp)]
          by_cases hpc : l.instructions.size ≤ σ.pc
          · rw [if_pos hpc]
            exact .ranPastEnd (Nat.succ_pos r) (.refl σ) hσ hpc
          · rw [if_neg hpc]
            have hr : l.Ready σ := ⟨hσ, by omega⟩
            cases hs : l.step σ with
            | ok a τ => exact (ih τ).step hr hs
            | error fault τ => exact .fails (Nat.succ_pos r) (.refl σ) hr hs

theorem Moves.runFor_ne_ok (h : l.Moves Q n σ τ) {cause : FaultCause} (hτ : l.Fails cause τ)
    (entry : String) (limit r : Nat) (υ : State) : l.runFor entry limit r σ ≠ .ok () υ := by
  intro hok
  have hends := l.runFor_ends entry limit r σ
  rw [hok] at hends
  cases hends with
  | @halted m _ _ hm hυ =>
      have hle : m ≤ n := h.le_of_stuck (stuck_of_fails hτ) hm
      have hge : n ≤ m := hm.le_of_stuck (stuck_of_halted hυ) h
      obtain rfl := Nat.le_antisymm hge hle
      obtain rfl := h.unique hm
      cases hτ.1.1.symm.trans hυ

/-! ## Runs -/

/-- What a run answers, by how its steps ended. -/
def answer : EStateM.Result Fault State Unit → EStateM.Result Fault State RunResult
  | .ok () σ => .ok σ.result σ
  | .error fault σ => .error fault σ

section

variable {config : MachineConfig} {entry : Option String} {pc : Int} {fault : Fault}

theorem answer_error_iff {x : EStateM.Result Fault State Unit} :
    answer x = .error fault τ ↔ x = .error fault τ := by
  cases x <;> simp [answer]

theorem answer_ok_iff {x : EStateM.Result Fault State Unit} {result : RunResult} :
    answer x = .ok result τ ↔ x = .ok () τ ∧ result = τ.result := by
  cases x with
  | ok _ σ =>
      simp only [answer, EStateM.Result.ok.injEq, true_and]
      constructor
      · rintro ⟨rfl, rfl⟩
        exact ⟨rfl, rfl⟩
      · rintro ⟨rfl, rfl⟩
        exact ⟨rfl, rfl⟩
  | error _ _ => simp [answer]

theorem run_of_defined (hpc : l.labels.find? (l.startLabel entry) = some pc) (s : State) :
    l.run config entry s = answer
      (l.runFor (l.startLabel entry) config.maxSteps config.maxSteps (startState config pc)) := by
  simp only [run, hpc]
  cases l.runFor (l.startLabel entry) config.maxSteps config.maxSteps (startState config pc) <;> rfl

theorem run_of_undefined (hpc : l.labels.find? (l.startLabel entry) = none) (s : State) :
    l.run config entry s = .error ⟨.undefinedEntry (l.startLabel entry), none⟩ s := by
  simp only [run, hpc]

theorem run_ok (hpc : l.labels.find? (l.startLabel entry) = some pc) {s : State}
    (h : l.runFor (l.startLabel entry) config.maxSteps config.maxSteps (startState config pc) =
      .ok () τ) : l.run config entry s = .ok τ.result τ := by
  rw [run_of_defined hpc, h]
  rfl

theorem run_error (hpc : l.labels.find? (l.startLabel entry) = some pc) {s : State}
    (h : l.runFor (l.startLabel entry) config.maxSteps config.maxSteps (startState config pc) =
      .error fault τ) : l.run config entry s = .error fault τ := by
  rw [run_of_defined hpc, h]
  rfl

end

end Listing

/-! ## Single instructions -/

/-- The state in which the instruction at the program counter is executed. -/
def State.tick (σ : State) : State :=
  { σ with pc := σ.pc + 1, steps := σ.steps + 1 }

theorem Listing.step_ok {l : Listing} {σ τ : State} {p : PlacedInstr} (hp : l.fetch? σ.pc = some p)
    (hx : Exec.instr l.labels p.instr σ.tick = .ok () τ) : l.step σ = .ok () τ := by
  unfold State.tick at hx
  simp only [Listing.step, hp, hx]

theorem Listing.step_error {l : Listing} {σ τ : State} {p : PlacedInstr} {cause : FaultCause}
    (hp : l.fetch? σ.pc = some p) (hx : Exec.instr l.labels p.instr σ.tick = .error cause τ) :
    l.step σ = .error ⟨cause, some p⟩ τ := by
  unfold State.tick at hx
  simp only [Listing.step, hp, hx]

namespace Memory

theorem read_write (m : Memory) (a b w : Word) :
    (m.write a w).read b = if a = b then w else m.read b := by
  simp only [read, write, Std.TreeMap.getD_insert, Std.LawfulEqCmp.compare_eq_iff_eq]

@[simp] theorem read_write_self (m : Memory) (a w : Word) : (m.write a w).read a = w := by
  rw [read_write, if_pos rfl]

theorem read_write_ne (m : Memory) {a b : Word} (w : Word) (h : b ≠ a) :
    (m.write a w).read b = m.read b := by
  rw [read_write, if_neg (Ne.symm h)]

theorem read_empty (a : Word) : ({} : Memory).read a = 0 := rfl

end Memory

end StackLang
