import StackLang.Proofs.ExprRun

/-!
# Running statements

The code of a statement does what the statement does: it comes to its end with the variables and
the last value as they should be, or gets to the return label with the value returned, or stops at
a division. If the statement needs more than some fuel, its code takes a number of steps that grows
with the fuel.
-/

namespace StackLang

variable {κ : Type} {P : VarRef → Prop} {N : Int → Prop}

namespace Activation

variable {key : VarRef → κ} {A : Activation} {l : Listing} {code : List Emission} {σ τ : State}
  {i j n home : Nat}

/-- The machine is between statements, in an environment. -/
structure Rests (A : Activation) (key : VarRef → κ) (P : VarRef → Prop) (i : Nat) (env : Env κ)
    (σ : State) : Prop where
  at_ : A.At i 0 σ
  holds : A.Holds key P σ.memory env.store
  last : σ.registers.rcx = env.last

/-- The code is loaded for variables laid out in the activation, and returns go to `home`. -/
structure Scene (A : Activation) (l : Listing) (code : List Emission) (key : VarRef → κ)
    (P : VarRef → Prop) (home : Nat) : Prop where
  layout : A.Layout key P
  hosts : A.Hosts l code
  home : ∃ rest, Stands code home (Emission.label returnLabel :: rest)

/-- What the code of a clause must do, by what the clause does. -/
def Settles (A : Activation) (l : Listing) (code : List Emission) (key : VarRef → κ)
    (P : VarRef → Prop) (n : Nat) (σ : State) (i : Nat) : Except Trap (Env κ) → Prop
  | .ok env => ∃ τ, l.Moves (A.Disciplined l code) n σ τ ∧ A.Rests key P i env τ
  | .error t => A.Stops l code n σ t

/-- What the code of a condition must do: go on at `i` if it holds and at `j` otherwise. -/
def Decides (A : Activation) (l : Listing) (code : List Emission) (key : VarRef → κ)
    (P : VarRef → Prop) (n : Nat) (σ : State) (i j : Nat) : Except Trap (Bool × Env κ) → Prop
  | .ok (holds, env) => ∃ τ, l.Moves (A.Disciplined l code) n σ τ ∧
      A.Rests key P (if holds then i else j) env τ
  | .error t => A.Stops l code n σ t

/-- What the code of a statement must do, by how the statement ends. A statement that has not ended
keeps the machine going for at least `least` steps. -/
def Goes (A : Activation) (l : Listing) (code : List Emission) (key : VarRef → κ)
    (P : VarRef → Prop) (home least n : Nat) (σ : State) (i : Nat) :
    Option (Except Trap (Ending κ)) → Prop
  | none => least ≤ n ∧ ∃ τ, l.Moves (A.Disciplined l code) n σ τ
  | some (.error t) => A.Stops l code n σ t
  | some (.ok (.next env)) => ∃ τ, l.Moves (A.Disciplined l code) n σ τ ∧ A.Rests key P i env τ
  | some (.ok (.returned w)) => ∃ τ, l.Moves (A.Disciplined l code) n σ τ ∧ A.At home 0 τ ∧
      τ.registers.rax = w

theorem Goes.after {least least' n' : Nat} {r : Option (Except Trap (Ending κ))}
    (h : A.Goes l code key P home least n' τ i r) (hmoves : l.Moves (A.Disciplined l code) n σ τ)
    (hleast : least' ≤ n + least) (hi : i = j) :
    A.Goes l code key P home least' (n + n') σ j r := by
  subst hi
  match r, h with
  | none, ⟨hle, υ, hυ⟩ => exact ⟨by omega, υ, hmoves.trans hυ⟩
  | some (.error _), h => exact h.after hmoves
  | some (.ok (.next _)), ⟨υ, hυ, hrests⟩ => exact ⟨υ, hmoves.trans hυ, hrests⟩
  | some (.ok (.returned _)), ⟨υ, hυ, hhome⟩ => exact ⟨υ, hmoves.trans hυ, hhome⟩

/-- Goes on after something that may not have ended, or not in a way that goes on. -/
def proceed (r : Option (Except Trap (Ending κ))) (go : Env κ → Option (Except Trap (Ending κ))) :
    Option (Except Trap (Ending κ)) :=
  r.bind fun r => Trap.guard r fun ending => ending.andThen go

theorem proceed_next (r : Option (Except Trap (Ending κ))) :
    proceed r (fun env => some (.ok (.next env))) = r := by
  match r with
  | none => rfl
  | some (.error _) => rfl
  | some (.ok (.next _)) => rfl
  | some (.ok (.returned _)) => rfl

/-- The number of steps of what comes after, if anything does. -/
def stepsAfter (r : Option (Except Trap (Ending κ))) (n : Env κ → Nat) : Nat :=
  match r with
  | some (.ok (.next env)) => n env
  | _ => 0

theorem Goes.proceed {least least' least'' : Nat} {r : Option (Except Trap (Ending κ))}
    {go : Env κ → Option (Except Trap (Ending κ))} {m : Env κ → Nat}
    (h : A.Goes l code key P home least n σ i r)
    (hgo : ∀ env τ, A.Rests key P i env τ →
      A.Goes l code key P home least' (m env) τ j (go env))
    (hle : least'' ≤ least) (hle' : least'' ≤ n + least') :
    A.Goes l code key P home least'' (n + stepsAfter r m) σ j (Activation.proceed r go) := by
  match r, h with
  | none, ⟨hn, hmoves⟩ => exact ⟨hle.trans hn, hmoves⟩
  | some (.error _), h => exact h
  | some (.ok (.next env)), ⟨τ, hτ, hrests⟩ => exact (hgo env τ hrests).after hτ hle' rfl
  | some (.ok (.returned _)), h => exact h

/-! ## Clauses -/

theorem Hosts.jump_rests {rest rest' : List Emission} {name : String} {env : Env κ}
    (H : A.Hosts l code) (hs : Stands code i (Emission.instr 0 .jmp [.label name] :: rest))
    (hj : Stands code j (Emission.label name :: rest')) (hσ : A.Rests key P i env σ) :
    ∃ τ, l.Moves (A.Disciplined l code) 1 σ τ ∧ A.Rests key P j env τ := by
  obtain ⟨τ, hτ⟩ := H.jump hs hj hσ.at_
  refine ⟨τ, hτ.moves, hτ.at_, ?_, ?_⟩
  · rw [hτ.memory]
    exact hσ.holds
  · rw [hτ.registers]
    exact hσ.last

/-- An expression evaluated between statements, and its value taken off the stack. -/
theorem Hosts.take {r : Register} {rest : List Emission} {w : Word} {store : Store κ}
    (hr : r = .rax ∨ r = .rcx) (H : A.Hosts l code)
    (hs : Stands code i (Emission.instr 1 .pop [.reg r] :: rest))
    (h : A.Yields l code key P n σ τ i 0 w store) :
    ∃ υ, l.Moves (A.Disciplined l code) (n + 1) σ υ ∧ A.At (i + 1) 0 υ ∧
      A.Holds key P υ.memory store ∧ υ.registers.read? r = some w ∧
      (r = .rax → υ.registers.rcx = σ.registers.rcx) := by
  obtain ⟨υ, hυ⟩ := H.pop (by tauto) hs h.at_
  rw [h.value] at hυ
  refine ⟨υ, h.moves.trans hυ.moves, hυ.at_, hυ.memory ▸ h.holds, ?_, ?_⟩
  · rw [hυ.registers]
    rcases hr with rfl | rfl <;> rfl
  · rintro rfl
    rw [hυ.registers]
    exact h.last

end Activation

open Activation

variable [DecidableEq κ] (key : VarRef → κ)

theorem discarded_runs (e : Expr) (he : e.All P N) (env : Env κ) :
    ∃ n, ∀ {A : Activation} {l : Listing} {code : List Emission} {i : Nat} {σ : State},
      A.Layout key P → A.Hosts l code → Stands code i (discardedCode e) →
      A.Rests key P i env σ →
      A.Settles l code key P n σ (i + codeSize (discardedCode e))
        (runClause key (some e) env) := by
  obtain ⟨n, hn⟩ := e.runs key he env.store
  refine ⟨match e.eval key env.store with
    | .error _ => n
    | .ok _ => n + 1, fun {A l code i σ} L H hs hσ => ?_⟩
  have hrun := hn L H hs.left hσ.at_ hσ.holds (H.depth_le hs.right)
  rw [runClause]
  cases he' : e.eval key env.store with
  | error t =>
      rw [he'] at hrun
      exact hrun.1
  | ok ws =>
      rw [he'] at hrun
      obtain ⟨τ, hτ⟩ := hrun
      obtain ⟨υ, hυ, hat, hholds, -, hlast⟩ := H.take (.inl rfl) hs.right hτ
      exact ⟨υ, hυ, by simpa [discardedCode, Nat.add_assoc] using hat, hholds,
        (hlast rfl).trans hσ.last⟩

theorem condition_runs (e : Expr) (he : e.All P N) (env : Env κ) :
    ∃ n, ∀ {A : Activation} {l : Listing} {code rest : List Emission} {i j : Nat} {σ : State}
      {target : String}, A.Layout key P → A.Hosts l code →
      Stands code i (conditionCode e target) → Stands code j (Emission.label target :: rest) →
      A.Rests key P i env σ →
      A.Decides l code key P n σ (i + codeSize (conditionCode e target)) j
        (testClause key (some e) env) := by
  obtain ⟨n, hn⟩ := e.runs key he env.store
  refine ⟨match e.eval key env.store with
    | .error _ => n
    | .ok _ => n + 1 + 1 + 1, fun {A l code rest i j σ target} L H hs hj hσ => ?_⟩
  have hrun := hn L H hs.left hσ.at_ hσ.holds (H.depth_le hs.right)
  rw [testClause]
  cases he' : e.eval key env.store with
  | error t =>
      rw [he'] at hrun
      exact hrun.1
  | ok ws =>
      rw [he'] at hrun
      obtain ⟨τ, hτ⟩ := hrun
      obtain ⟨υ, hυ, hat, hholds, hrax, hlast⟩ := H.take (.inl rfl) hs.right hτ
      obtain ⟨φ, hφ, hflags⟩ := H.quiet hs.right.next hat (ρ := υ.registers)
        (φ := .ofResult (υ.registers.rax.toInt - (Word.ofInt 0).toInt)) rfl rfl rfl
      obtain ⟨ψ, hψ⟩ := H.jumpIfZero hs.right.next.next hj hφ.at_
      have hzero : φ.flags.zero = (ws.1 == 0) := by
        have hw : υ.registers.rax = ws.1 := Option.some.inj hrax
        rw [hflags, hw]
        exact Flags.zero_ofResult ws.1 0
      rw [hzero] at hψ
      refine ⟨ψ, hυ.trans (hφ.moves.trans hψ.moves), ?_, ?_, ?_⟩
      · have hat' := hψ.at_
        cases hz : ws.1 == 0 <;> simpa [bne, hz, conditionCode, Nat.add_assoc] using hat'
      · rw [hψ.memory, hφ.memory]
        exact hholds
      · rw [hψ.registers, hφ.registers, hlast rfl]
        exact hσ.last

theorem runClause_runs (clause : Option Expr) (hc : ClauseAll P N clause) (env : Env κ) :
    ∃ n, ∀ {A : Activation} {l : Listing} {code : List Emission} {i : Nat} {σ : State}
      {comments : Bool} {text : String}, A.Layout key P → A.Hosts l code →
      Stands code i (clauseCode clause fun e => remark comments text ++ discardedCode e) →
      A.Rests key P i env σ →
      A.Settles l code key P n σ
        (i + codeSize (clauseCode clause fun e => remark comments text ++ discardedCode e))
        (runClause key clause env) := by
  cases clause with
  | none => exact ⟨0, fun {A l code i σ _ _} _ _ _ hσ => ⟨σ, .refl σ, hσ⟩⟩
  | some e =>
      obtain ⟨n, hn⟩ := discarded_runs key e hc env
      refine ⟨n, fun L H hs hσ => ?_⟩
      simpa [clauseCode] using hn L H hs.pastRemark hσ

theorem testClause_runs (clause : Option Expr) (hc : ClauseAll P N clause) (env : Env κ) :
    ∃ n, ∀ {A : Activation} {l : Listing} {code rest : List Emission} {i j : Nat} {σ : State}
      {comments : Bool} {text target : String}, A.Layout key P → A.Hosts l code →
      Stands code i (clauseCode clause fun e => remark comments text ++ conditionCode e target) →
      Stands code j (Emission.label target :: rest) → A.Rests key P i env σ →
      A.Decides l code key P n σ
        (i + codeSize (clauseCode clause fun e => remark comments text ++ conditionCode e target))
        j (testClause key clause env) := by
  cases clause with
  | none => exact ⟨0, fun {A l code rest i j σ _ _ _} _ _ _ _ hσ => ⟨σ, .refl σ, hσ⟩⟩
  | some e =>
      obtain ⟨n, hn⟩ := condition_runs key e hc env
      refine ⟨n, fun L H hs hj hσ => ?_⟩
      simpa [clauseCode] using hn L H hs.pastRemark hj hσ

/-! ## Statements -/

mutual

/-- How many levels of fuel are spent on entering the statement and what is inside it. -/
def Stmt.nesting : Stmt → Nat
  | .ifThen _ _ a => a.nesting + 1
  | .ifElse _ _ a b => max a.nesting b.nesting + 1
  | .while_ _ _ a => a.nesting + 2
  | .for_ _ _ _ _ a => a.nesting + 2
  | .block _ ss => nestingAll ss + 1
  | .expr _ _ | .ret _ _ | .bare _ => 1

def nestingAll : List Stmt → Nat
  | [] => 1
  | s :: ss => max s.nesting (nestingAll ss) + 1

end

/-- Statements run as they should with this fuel. -/
def StmtRuns (P : VarRef → Prop) (N : Int → Prop) (fuel : Nat) : Prop :=
  ∀ s : Stmt, s.All P N → ∀ env : Env κ, ∃ n, ∀ {A : Activation} {l : Listing}
    {code : List Emission} {home i index : Nat} {comments : Bool} {σ : State},
    A.Scene l code key P home → Stands code i (s.code comments index) → A.Rests key P i env σ →
    A.Goes l code key P home (fuel - s.nesting) n σ (i + codeSize (s.code comments index))
      (s.exec key fuel env)

def StmtsRun (P : VarRef → Prop) (N : Int → Prop) (fuel : Nat) : Prop :=
  ∀ ss : List Stmt, AllStmts P N ss → ∀ env : Env κ, ∃ n, ∀ {A : Activation} {l : Listing}
    {code : List Emission} {home i index : Nat} {comments : Bool} {σ : State},
    A.Scene l code key P home → Stands code i (codeAll comments ss index) →
    A.Rests key P i env σ →
    A.Goes l code key P home (fuel - nestingAll ss) n σ (i + codeSize (codeAll comments ss index))
      (execAll key fuel ss env)

def LoopRuns (P : VarRef → Prop) (N : Int → Prop) (fuel : Nat) : Prop :=
  ∀ (c u : Option Expr) (a : Stmt), ClauseAll P N c → ClauseAll P N u → a.All P N → ∀ env : Env κ,
    ∃ n, ∀ {A : Activation} {l : Listing} {code : List Emission} {home i index : Nat}
      {comments : Bool} {text text' : String} {σ : State}, A.Scene l code key P home →
      Stands code i (loopCode c (remark comments text) u (remark comments text') index
        (a.code comments (index + 1))) →
      A.Rests key P i env σ →
      A.Goes l code key P home (fuel - (a.nesting + 1)) n σ
        (i + codeSize (loopCode c (remark comments text) u (remark comments text') index
          (a.code comments (index + 1))))
        (execLoop key fuel c u a env)

theorem exprStmt_runs (fuel : Nat) (location : Location) (e : Expr) (he : e.All P N)
    (env : Env κ) :
    ∃ n, ∀ {A : Activation} {l : Listing} {code : List Emission} {home i least : Nat}
      {σ : State}, A.Scene l code key P home →
      Stands code i (e.code 0 ++ [Emission.instr 1 .pop [.reg .rcx]]) → A.Rests key P i env σ →
      A.Goes l code key P home least n σ (i + codeSize (e.code 0) + 1)
        ((Stmt.expr location e).exec key (fuel + 1) env) := by
  obtain ⟨n, hn⟩ := e.runs key he env.store
  refine ⟨match e.eval key env.store with
    | .error _ => n
    | .ok _ => n + 1, fun {A l code home i least σ} S hs hσ => ?_⟩
  have hrun := hn S.layout S.hosts hs.left hσ.at_ hσ.holds (S.hosts.depth_le hs.right)
  rw [Stmt.exec]
  cases he' : e.eval key env.store with
  | error t =>
      rw [he'] at hrun
      exact hrun.1
  | ok ws =>
      rw [he'] at hrun
      obtain ⟨τ, hτ⟩ := hrun
      obtain ⟨υ, hυ, hat, hholds, hrcx, -⟩ := S.hosts.take (.inr rfl) hs.right hτ
      exact ⟨υ, hυ, hat, hholds, Option.some.inj hrcx⟩

theorem retStmt_runs (fuel : Nat) (location : Location) (e : Expr) (he : e.All P N)
    (env : Env κ) :
    ∃ n, ∀ {A : Activation} {l : Listing} {code : List Emission} {home i j least : Nat}
      {σ : State}, A.Scene l code key P home →
      Stands code i (e.code 0 ++ [Emission.instr 1 .pop [.reg .rax],
        Emission.instr 0 .jmp [.label returnLabel]]) → A.Rests key P i env σ →
      A.Goes l code key P home least n σ j ((Stmt.ret location e).exec key (fuel + 1) env) := by
  obtain ⟨n, hn⟩ := e.runs key he env.store
  refine ⟨match e.eval key env.store with
    | .error _ => n
    | .ok _ => n + 1 + 1, fun {A l code home i j least σ} S hs hσ => ?_⟩
  have hrun := hn S.layout S.hosts hs.left hσ.at_ hσ.holds (S.hosts.depth_le hs.right)
  rw [Stmt.exec]
  cases he' : e.eval key env.store with
  | error t =>
      rw [he'] at hrun
      exact hrun.1
  | ok ws =>
      rw [he'] at hrun
      obtain ⟨τ, hτ⟩ := hrun
      obtain ⟨υ, hυ, hat, -, hrax, -⟩ := S.hosts.take (.inl rfl) hs.right hτ
      obtain ⟨rest, hhome⟩ := S.home
      obtain ⟨φ, hφ⟩ := S.hosts.jump hs.right.next hhome hat
      refine ⟨φ, hυ.trans hφ.moves, hφ.at_, ?_⟩
      rw [hφ.registers]
      exact Option.some.inj hrax

theorem ifThen_runs {fuel : Nat} (ih : StmtRuns key P N fuel) (location : Location) (c : Expr)
    (a : Stmt) (hc : c.All P N) (ha : a.All P N) (env : Env κ) :
    ∃ n, ∀ {A : Activation} {l : Listing} {code : List Emission} {home i index : Nat}
      {comments : Bool} {σ : State}, A.Scene l code key P home →
      Stands code i ((Stmt.ifThen location c a).code comments index) → A.Rests key P i env σ →
      A.Goes l code key P home (fuel - a.nesting) n σ
        (i + codeSize ((Stmt.ifThen location c a).code comments index))
        ((Stmt.ifThen location c a).exec key (fuel + 1) env) := by
  obtain ⟨nc, hnc⟩ := condition_runs key c hc env
  choose na hna using ih a ha
  refine ⟨match testClause key (some c) env with
    | .error _ => nc
    | .ok (true, env') => nc + na env'
    | .ok (false, _) => nc, fun {A l code home i index comments σ} S hs hσ => ?_⟩
  rw [Stmt.code] at hs
  have hs' := hs.pastRemark
  have hrun := hnc S.layout S.hosts hs'.left hs'.right.right hσ
  have hsize : i + codeSize (conditionCode c (endLabel index)) +
      codeSize (a.code comments (index + 1)) =
        i + codeSize ((Stmt.ifThen location c a).code comments index) := by
    simp [Stmt.code]
    omega
  rw [Stmt.exec]
  cases ht : testClause key (some c) env with
  | error t =>
      rw [ht] at hrun
      exact hrun
  | ok r =>
      obtain ⟨holds, env'⟩ := r
      rw [ht] at hrun
      obtain ⟨τ, hτ, hrests⟩ := hrun
      cases holds with
      | false => exact ⟨τ, hτ, hsize ▸ hrests⟩
      | true =>
          have hbody := hna env' S hs'.right.left hrests
          exact hbody.after hτ (by omega) hsize

theorem ifElse_runs {fuel : Nat} (ih : StmtRuns key P N fuel) (location : Location) (c : Expr)
    (a b : Stmt) (hc : c.All P N) (ha : a.All P N) (hb : b.All P N) (env : Env κ) :
    ∃ n, ∀ {A : Activation} {l : Listing} {code : List Emission} {home i index : Nat}
      {comments : Bool} {σ : State}, A.Scene l code key P home →
      Stands code i ((Stmt.ifElse location c a b).code comments index) → A.Rests key P i env σ →
      A.Goes l code key P home (fuel - max a.nesting b.nesting) n σ
        (i + codeSize ((Stmt.ifElse location c a b).code comments index))
        ((Stmt.ifElse location c a b).exec key (fuel + 1) env) := by
  obtain ⟨nc, hnc⟩ := condition_runs key c hc env
  choose na hna using ih a ha
  choose nb hnb using ih b hb
  refine ⟨match testClause key (some c) env with
    | .error _ => nc
    | .ok (true, env') => nc + (na env' + stepsAfter (a.exec key fuel env') fun _ => 1)
    | .ok (false, env') => nc + nb env', fun {A l code home i index comments σ} S hs hσ => ?_⟩
  rw [Stmt.code] at hs
  have hs' := hs.pastRemark
  have hjump := hs'.right.right
  have helse := hjump.next
  have hend := helse.pastLabel.right
  have hrun := hnc S.layout S.hosts hs'.left helse hσ
  have hsize : i + codeSize (conditionCode c (elseLabel index)) +
      codeSize (a.code comments (index + 1)) + 1 +
        codeSize (b.code comments (index + 1 + a.labelCount)) =
        i + codeSize ((Stmt.ifElse location c a b).code comments index) := by
    simp [Stmt.code]
    omega
  rw [Stmt.exec]
  cases ht : testClause key (some c) env with
  | error t =>
      rw [ht] at hrun
      exact hrun
  | ok r =>
      obtain ⟨holds, env'⟩ := r
      rw [ht] at hrun
      obtain ⟨τ, hτ, hrests⟩ := hrun
      cases holds with
      | false =>
          have hbody := hnb env' S helse.pastLabel.left hrests
          exact hbody.after hτ (by omega) hsize
      | true =>
          have hbody := hna env' S hs'.right.left hrests
          have hskip : ∀ env'' υ, A.Rests key P (i + codeSize (conditionCode c (elseLabel index)) +
              codeSize (a.code comments (index + 1))) env'' υ →
              A.Goes l code key P home (fuel - max a.nesting b.nesting) 1 υ
                (i + codeSize ((Stmt.ifElse location c a b).code comments index))
                (some (.ok (.next env''))) := by
            intro env'' υ hυ
            rw [← hsize]
            exact S.hosts.jump_rests hjump hend hυ
          have hall := hbody.proceed hskip (by omega) le_add_self
          rw [proceed_next] at hall
          exact hall.after hτ (by omega) rfl

theorem stmtsRun_succ {fuel : Nat} (ih : StmtRuns key P N fuel) (ihs : StmtsRun key P N fuel) :
    StmtsRun key P N (fuel + 1) := by
  intro ss hss env
  cases ss with
  | nil => exact ⟨0, fun {A l code home i index comments σ} S hs hσ => ⟨σ, .refl σ, hσ⟩⟩
  | cons s ss =>
      choose n hn using ih s hss.1
      choose ns hns using ihs ss hss.2
      refine ⟨n env + stepsAfter (s.exec key fuel env) ns,
        fun {A l code home i index comments σ} S hs hσ => ?_⟩
      rw [codeAll] at hs
      rw [execAll, nestingAll, codeAll, codeSize_append, ← Nat.add_assoc]
      exact (hn env S hs.left hσ).proceed (fun env' τ hτ => hns env' S hs.right hτ) (by omega)
        (by omega)

/-- The end of a round: the update, and the loop again. -/
theorem loopBack_runs {fuel : Nat} (ih : LoopRuns key P N fuel) (c u : Option Expr) (a : Stmt)
    (hc : ClauseAll P N c) (hu : ClauseAll P N u) (ha : a.All P N) (env : Env κ) :
    ∃ n, ∀ {A : Activation} {l : Listing} {code : List Emission} {home i index : Nat}
      {comments : Bool} {text text' : String} {σ : State}, A.Scene l code key P home →
      Stands code i (loopCode c (remark comments text) u (remark comments text') index
        (a.code comments (index + 1))) →
      A.Rests key P (i + codeSize (clauseCode c fun e => remark comments text ++
        conditionCode e (endLabel index)) + codeSize (a.code comments (index + 1))) env σ →
      A.Goes l code key P home (fuel - (a.nesting + 1) + 1) n σ
        (i + codeSize (loopCode c (remark comments text) u (remark comments text') index
          (a.code comments (index + 1))))
        (Trap.guard (runClause key u env) fun env => execLoop key fuel c u a env) := by
  obtain ⟨nu, hnu⟩ := runClause_runs key u hu env
  choose nl hnl using ih c u a hc hu ha
  refine ⟨match runClause key u env with
    | .error _ => nu
    | .ok env' => nu + (1 + nl env'),
    fun {A l code home i index comments text text' σ} S hs hσ => ?_⟩
  have hupdate := hs.pastLabel.right.right
  have hrun := hnu S.layout S.hosts hupdate.left hσ
  cases hr : runClause key u env with
  | error t =>
      rw [hr] at hrun
      exact hrun
  | ok env' =>
      rw [hr] at hrun
      obtain ⟨τ, hτ, hrests⟩ := hrun
      obtain ⟨υ, hυ, hbegin⟩ := S.hosts.jump_rests hupdate.right hs hrests
      have hagain := (hnl env' S hs hbegin).after hυ (Nat.add_comm _ _).le rfl
      exact hagain.after hτ (by omega) rfl

/-- One round of a loop, after which the loop is run with less fuel. -/
theorem loopRuns_succ {fuel : Nat} (ih : StmtRuns key P N fuel) (ihl : LoopRuns key P N fuel) :
    LoopRuns key P N (fuel + 1) := by
  intro c u a hc hu ha env
  obtain ⟨nt, hnt⟩ := testClause_runs key c hc env
  choose na hna using ih a ha
  choose nb hnb using loopBack_runs key ihl c u a hc hu ha
  refine ⟨match testClause key c env with
    | .error _ => nt
    | .ok (false, _) => nt
    | .ok (true, env') => nt + (na env' + stepsAfter (a.exec key fuel env') nb),
    fun {A l code home i index comments text text' σ} S hs hσ => ?_⟩
  have htest := hs.pastLabel
  have hrun := hnt S.layout S.hosts htest.left htest.right.right.right.next hσ
  rw [execLoop]
  cases ht : testClause key c env with
  | error t =>
      rw [ht] at hrun
      exact hrun
  | ok r =>
      obtain ⟨holds, env'⟩ := r
      rw [ht] at hrun
      obtain ⟨τ, hτ, hrests⟩ := hrun
      cases holds with
      | false =>
          refine ⟨τ, hτ, ?_⟩
          simpa [loopCode, Nat.add_assoc] using hrests
      | true =>
          have hbody := hna env' S htest.right.left hrests
          have hround := hbody.proceed (fun env'' υ hυ => hnb env'' S hs hυ) le_rfl (by omega)
          exact hround.after hτ (by omega) rfl

theorem stmtRuns_succ {fuel : Nat} (ih : StmtRuns key P N fuel) (ihs : StmtsRun key P N fuel)
    (ihl : LoopRuns key P N fuel) : StmtRuns key P N (fuel + 1) := by
  intro s hs env
  cases s with
  | expr location e =>
      obtain ⟨n, hn⟩ := exprStmt_runs key fuel location e hs env
      refine ⟨n, fun S hs hσ => ?_⟩
      simpa [Stmt.code, Nat.add_assoc] using hn S hs hσ
  | ret location e =>
      obtain ⟨n, hn⟩ := retStmt_runs key fuel location e hs env
      exact ⟨n, fun S hs hσ => hn S hs.pastRemark hσ⟩
  | ifThen location c a =>
      obtain ⟨n, hn⟩ := ifThen_runs key ih location c a hs.1 hs.2 env
      refine ⟨n, fun S hs hσ => ?_⟩
      rw [Stmt.nesting, Nat.add_sub_add_right]
      exact hn S hs hσ
  | ifElse location c a b =>
      obtain ⟨n, hn⟩ := ifElse_runs key ih location c a b hs.1 hs.2.1 hs.2.2 env
      refine ⟨n, fun S hs hσ => ?_⟩
      rw [Stmt.nesting, Nat.add_sub_add_right]
      exact hn S hs hσ
  | while_ location c a =>
      obtain ⟨n, hn⟩ := ihl (some c) none a hs.1 trivial hs.2 env
      refine ⟨n, fun S hs hσ => ?_⟩
      rw [Stmt.nesting, Nat.add_sub_add_right, Stmt.exec]
      exact @hn _ _ _ _ _ _ _ _ "" _ S hs hσ
  | for_ location i c u a =>
      obtain ⟨ni, hni⟩ := runClause_runs key i hs.1 env
      choose nl hnl using ihl c u a hs.2.1 hs.2.2.1 hs.2.2.2
      refine ⟨match runClause key i env with
        | .error _ => ni
        | .ok env' => ni + nl env', fun {A l code home j index comments σ} S hs hσ => ?_⟩
      rw [Stmt.nesting, Nat.add_sub_add_right, Stmt.exec, Stmt.code, codeSize_append,
        ← Nat.add_assoc]
      have hrun := hni S.layout S.hosts hs.left hσ
      cases hr : runClause key i env with
      | error t =>
          rw [hr] at hrun
          exact hrun
      | ok env' =>
          rw [hr] at hrun
          obtain ⟨τ, hτ, hrests⟩ := hrun
          exact (hnl env' S hs.right hrests).after hτ (by omega) rfl
  | block location ss =>
      obtain ⟨n, hn⟩ := ihs ss hs env
      refine ⟨n, fun S hs hσ => ?_⟩
      rw [Stmt.nesting, Nat.add_sub_add_right, Stmt.exec]
      exact hn S hs hσ
  | bare location => exact hs.elim

theorem stmtsRun (fuel : Nat) : StmtsRun key P N fuel := by
  have hall : StmtRuns key P N fuel ∧ StmtsRun key P N fuel ∧ LoopRuns key P N fuel := by
    induction fuel with
    | zero =>
        refine ⟨fun s _ env => ⟨0, ?_⟩, fun ss _ env => ⟨0, ?_⟩, fun c u a _ _ _ env => ⟨0, ?_⟩⟩
        · intro A l code home i index comments σ _ _ _
          exact ⟨(Nat.zero_sub _).le, σ, .refl σ⟩
        · intro A l code home i index comments σ _ _ _
          exact ⟨(Nat.zero_sub _).le, σ, .refl σ⟩
        · intro A l code home i index comments text text' σ _ _ _
          exact ⟨(Nat.zero_sub _).le, σ, .refl σ⟩
    | succ fuel ih =>
        obtain ⟨ih, ihs, ihl⟩ := ih
        exact ⟨stmtRuns_succ key ih ihs ihl, stmtsRun_succ key ih ihs, loopRuns_succ key ih ihl⟩
  exact hall.2.1

end StackLang
