import StackLang.Proofs.Effects

/-!
# Counting steps

Nothing that an instruction does touches the step counter, whether it succeeds or fails. So every
step counts for one, and a sequence of steps for its length.
-/

namespace StackLang

theorem Exec.steady_steps (labels : LabelTable) (n : Nat) :
    Exec.Steady labels (fun _ => True) (·.steps = n) where
  rax := trivial
  rdx := trivial
  rsp := trivial
  register := fun _ _ _ _ hs => hs
  memory := fun _ _ hs => hs
  flags := fun _ _ hs => hs
  jump := fun _ _ _ _ hs => hs
  halt := fun _ hs => hs

namespace Listing

variable {l : Listing} {σ τ : State}

theorem step_steps (l : Listing) (σ : State) :
    (endState (l.step σ)).steps = σ.steps + 1 ∨ l.step σ = .error ⟨.noInstruction, none⟩ σ :=
  step_maintains (Exec.steady_steps l.labels (σ.steps + 1)) (fun _ _ _ _ => trivial) rfl

theorem step_ok_steps (h : l.step σ = .ok () τ) : τ.steps = σ.steps + 1 := by
  have hcount := step_steps l σ
  rw [h] at hcount
  rcases hcount with hcount | hcount
  · exact hcount
  · cases hcount

/-- A step that fails counts as well, unless there was no instruction to execute. -/
theorem step_error_steps {fault : Fault} (h : l.step σ = .error fault τ)
    (hcause : fault.cause ≠ .noInstruction) : τ.steps = σ.steps + 1 := by
  have hcount := step_steps l σ
  rw [h] at hcount
  rcases hcount with hcount | hcount
  · exact hcount
  · cases hcount
    exact absurd rfl hcause

theorem Moves.steps {Q : State → Prop} {n : Nat} (h : Moves l Q n σ τ) :
    τ.steps = σ.steps + n := by
  induction h with
  | refl => rfl
  | step _ _ hs _ ih =>
      rw [ih, step_ok_steps hs]
      omega

end Listing

end StackLang
