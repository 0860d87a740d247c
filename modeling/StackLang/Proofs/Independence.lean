import StackLang.Proofs.Correctness
import StackLang.Proofs.StepCount

/-!
# Runs do not depend on the options

The name of the routine, its comments, the alignment of its frame and the place of the stack are
not seen by a program: for one step limit all listings of it have one outcome, steps included.
-/

namespace StackLang

open Listing (Moves)

/-! ## Outcomes -/

/-- What the caller of a run sees: the result, or what kind of problem stopped it after how many
steps. -/
inductive Outcome where
  | returned (r : RunResult)
  | stopped (category : Category) (steps : Nat)
deriving DecidableEq

/-- The outcome of a run from the entry of the listing, unless it is stopped without a report. -/
def Listing.outcome? (l : Listing) (config : MachineConfig) (s : State) : Option Outcome :=
  match l.run config none s with
  | .ok r _ => some (.returned r)
  | .error fault s' =>
    match fault.failure l.filename with
    | .report d => some (.stopped d.category s'.steps)
    | _ => none

namespace Listing

variable {l : Listing} {config : MachineConfig} {s τ : State} {Q : State → Prop} {n : Nat}

theorem outcome?_of_halted (hstart : l.labels.find? (l.startLabel none) = some 0)
    (h : Moves l Q n (startState config 0) τ) (hhalted : τ.halted = true)
    (hle : n ≤ config.maxSteps) :
    l.outcome? config s =
      some (.returned ⟨τ.registers.rax.toInt, τ.registers.rax.lowByte.toNat, n⟩) := by
  have hsteps : τ.steps = n := h.steps.trans (Nat.zero_add n)
  rw [outcome?, run_ok hstart (h.runFor_halted _ _ hhalted hle), ← hsteps]
  rfl

theorem outcome?_of_cut (hstart : l.labels.find? (l.startLabel none) = some 0)
    (h : Moves l Q config.maxSteps (startState config 0) τ) (hrun : τ.halted = false) :
    l.outcome? config s = some (.stopped (.stepLimit config.maxSteps) config.maxSteps) := by
  have hsteps : τ.steps = config.maxSteps := h.steps.trans (Nat.zero_add _)
  rw [outcome?, run_error hstart (h.runFor_cut _ _ hrun)]
  exact congrArg (fun k => some (Outcome.stopped (.stepLimit config.maxSteps) k)) hsteps

theorem outcome?_of_lt (hstart : l.labels.find? (l.startLabel none) = some 0)
    (h : Moves l Q n (startState config 0) τ) (hlt : config.maxSteps < n) :
    l.outcome? config s = some (.stopped (.stepLimit config.maxSteps) config.maxSteps) := by
  obtain ⟨k, rfl⟩ : ∃ k, n = config.maxSteps + (k + 1) := ⟨n - config.maxSteps - 1, by omega⟩
  obtain ⟨υ, hυ, hrest⟩ := h.take
  exact outcome?_of_cut hstart hυ hrest.ready.2.1

/-- The step with the division counts. -/
theorem outcome?_of_division (hstart : l.labels.find? (l.startLabel none) = some 0)
    (h : Moves l Q n (startState config 0) τ) {cause : FaultCause} (hfails : l.Fails cause τ)
    (hcause : cause = .divisionByZero ∨ cause = .quotientRange) (hlt : n < config.maxSteps) :
    l.outcome? config s = some (.stopped .division (n + 1)) := by
  have hsteps : τ.steps = n := h.steps.trans (Nat.zero_add n)
  obtain ⟨i, υ, hstep, hrun⟩ :=
    h.runFor_fails (l.startLabel none) config.maxSteps hfails hlt
  rw [outcome?, run_error hstart hrun, ← hsteps]
  rcases hcause with rfl | rfl
  · rw [← step_error_steps hstep (by simp)]
    rfl
  · rw [← step_error_steps hstep (by simp)]
    rfl

end Listing

/-! ## One outcome for all listings of a program -/

namespace Installed

variable {p : Program} {o : RoutineOptions} {frame : Int} {l : Listing}

theorem outcome?_of_value (hp : p.Sound) {fuel : Nat} {w : Word}
    (hvalue : p.value fuel = some (.ok w)) :
    ∃ n, ∀ {o frame l}, Installed p o frame l → ∀ config s, l.outcome? config s = some
      (if n ≤ config.maxSteps then .returned ⟨w.toInt, w.lowByte.toNat, n⟩
        else .stopped (.stepLimit config.maxSteps) config.maxSteps) := by
  obtain ⟨n, hn⟩ := concludes_of_sound hp fuel
  refine ⟨n, fun {o frame l} I config s => ?_⟩
  have hrun := hn I config
  rw [hvalue] at hrun
  obtain ⟨τ, hτ, -, hhalted, rfl⟩ := hrun
  by_cases hle : n ≤ config.maxSteps
  · rw [if_pos hle]
    exact Listing.outcome?_of_halted I.start hτ hhalted hle
  · rw [if_neg hle]
    exact Listing.outcome?_of_lt I.start hτ (by omega)

theorem outcome?_of_dividesInVain (hp : p.Sound) (hvain : p.DividesInVain) :
    ∃ n, ∀ {o frame l}, Installed p o frame l → ∀ config s, l.outcome? config s = some
      (if n < config.maxSteps then .stopped .division (n + 1)
        else .stopped (.stepLimit config.maxSteps) config.maxSteps) := by
  obtain ⟨fuel, hvalue⟩ := hvain
  obtain ⟨n, hn⟩ := concludes_of_sound hp fuel
  refine ⟨n, fun {o frame l} I config s => ?_⟩
  have hrun := hn I config
  rw [hvalue] at hrun
  obtain ⟨τ, cause, hτ, -, hfails, hcause⟩ := hrun
  by_cases hlt : n < config.maxSteps
  · rw [if_pos hlt]
    exact Listing.outcome?_of_division I.start hτ hfails hcause hlt
  · rw [if_neg hlt]
    rcases Nat.lt_or_eq_of_le (Nat.le_of_not_lt hlt) with hless | rfl
    · exact Listing.outcome?_of_lt I.start hτ hless
    · exact Listing.outcome?_of_cut I.start hτ hfails.1.1

theorem outcome?_of_neverEnds (I : Installed p o frame l) (hnever : p.NeverEnds)
    (config : MachineConfig) (s : State) :
    l.outcome? config s = some (.stopped (.stepLimit config.maxSteps) config.maxSteps) := by
  obtain ⟨n, hn⟩ := I.concludes (config.maxSteps + 1 + nestingAll p.statements)
  have hrun := hn config
  rw [hnever] at hrun
  obtain ⟨hle, τ, hτ⟩ := hrun
  exact Listing.outcome?_of_lt I.start hτ (by omega)

/-- All installations of a program have the same outcome for the same limit. -/
theorem exists_outcome (I : Installed p o frame l) :
    ∃ outcome : Nat → Outcome, ∀ {o frame l}, Installed p o frame l → ∀ config s,
      l.outcome? config s = some (outcome config.maxSteps) := by
  rcases I.fate with ⟨fuel, w, hvalue⟩ | hvain | hnever
  · obtain ⟨n, hn⟩ := outcome?_of_value I.housed.sound hvalue
    exact ⟨fun limit => if n ≤ limit then .returned ⟨w.toInt, w.lowByte.toNat, n⟩
      else .stopped (.stepLimit limit) limit, hn⟩
  · obtain ⟨n, hn⟩ := outcome?_of_dividesInVain I.housed.sound hvain
    exact ⟨fun limit => if n < limit then .stopped .division (n + 1)
      else .stopped (.stepLimit limit) limit, hn⟩
  · exact ⟨fun limit => .stopped (.stepLimit limit) limit,
      fun I' config s => I'.outcome?_of_neverEnds hnever config s⟩

end Installed

/-- Neither the options of the compiler nor the place of the stack change what a program does.
However often it is compiled and run, for one step limit there is one outcome: the same result
after the same number of steps, or the same kind of problem after the same number of steps. -/
theorem outcome_independent {source filename : String} {p : Program} {o o' : RoutineOptions}
    (hp : parseSource source filename = .ok p) (ho : o.fault? = none) (ho' : o'.fault? = none)
    (hentry : EntryName o.entry) (hentry' : EntryName o'.entry)
    (hroom : ∀ r, p.routine o = .ok r → r.frame + 8 * deepest r.code + 16 ≤ 2 ^ 64)
    (hroom' : ∀ r, p.routine o' = .ok r → r.frame + 8 * deepest r.code + 16 ≤ 2 ^ 64) :
    ∃ c c' l l', compile source filename o = .ok c ∧ compile source filename o' = .ok c' ∧
      Listing.read c.assembly = .ok l ∧ Listing.read c'.assembly = .ok l' ∧
      ∀ (config config' : MachineConfig) (s s' : State), config.maxSteps = config'.maxSteps →
        ∃ outcome, l.outcome? config s = some outcome ∧ l'.outcome? config' s' = some outcome := by
  obtain ⟨c, l, hc, hl, -, -, I⟩ := exists_installed hp ho hentry hroom
  obtain ⟨c', l', hc', hl', -, -, I'⟩ := exists_installed hp ho' hentry' hroom'
  obtain ⟨outcome, houtcome⟩ := I.exists_outcome
  refine ⟨c, c', l, l', hc, hc', hl, hl', fun config config' s s' hlimit => ?_⟩
  refine ⟨outcome config.maxSteps, houtcome I config s, ?_⟩
  rw [hlimit]
  exact houtcome I' config' s'

def halving : String := "a = 96; while (a != 3) { a = a / 2; k = k + 1; } return k / (a - 3);"

def packed : RoutineOptions := { comments := true, alignment := 8 }

def padded : RoutineOptions := { entry := "_start", alignment := 4096 }

theorem outcome_independent_halving :
    ∃ c c' l l' outcome, compile halving "<input>" packed = .ok c ∧
      compile halving "<input>" padded = .ok c' ∧
      Listing.read c.assembly = .ok l ∧ Listing.read c'.assembly = .ok l' ∧
      l.outcome? { stackTop := -16 } {} = some outcome ∧
      l'.outcome? { stackTop := 2 ^ 64 + 32 } {} = some outcome := by
  have hcheck : ((parseSource halving).toOption.any fun p => [packed, padded].all fun o =>
      (p.routine o).toOption.all fun r : Routine =>
        decide (r.frame + 8 * deepest r.code + 16 ≤ 2 ^ 64)) = true := by
    decide +kernel
  obtain ⟨p, hp, hcheck⟩ := exists_ok_of_any hcheck
  have hroom : ∀ o ∈ [packed, padded], ∀ r, p.routine o = .ok r →
      r.frame + 8 * deepest r.code + 16 ≤ 2 ^ 64 := by
    intro o ho r hr
    have hfits := List.all_eq_true.mp hcheck o ho
    simpa [hr, Except.toOption] using hfits
  obtain ⟨c, c', l, l', hc, hc', hl, hl', hsame⟩ :=
    outcome_independent hp (by decide) (by decide) (EntryName.of_head (by decide) (by decide))
      (EntryName.of_head (by decide) (by decide)) (hroom packed (by simp))
      (hroom padded (by simp))
  obtain ⟨outcome, houtcome, houtcome'⟩ :=
    hsame { stackTop := -16 } { stackTop := 2 ^ 64 + 32 } {} {} rfl
  exact ⟨c, c', l, l', outcome, hc, hc', hl, hl', houtcome, houtcome'⟩

end StackLang
