import StackLang.Proofs.Compiled

/-!
# What code depends on

The code of a program is a function of its outline, which has the forms, operators, numbers and
slots of the program, but neither names nor places in a text. Programs with the same outline and as
many slots have the same routines.
-/

namespace StackLang

/-! ## Outlines -/

def Location.nowhere : Location :=
  ⟨"", 0, 0, 0⟩

open Location (nowhere)

def VarRef.outline (r : VarRef) : VarRef :=
  ⟨nowhere, "", r.offset⟩

/-- The expression without names and places. -/
def Expr.outline : Expr → Expr
  | .number _ value => .number nowhere value
  | .var r => .var r.outline
  | .binary _ op a b => .binary nowhere op a.outline b.outline
  | .assign _ r e => .assign nowhere r.outline e.outline
  | .bare _ => .bare nowhere

mutual

/-- The statement without names and places. -/
def Stmt.outline : Stmt → Stmt
  | .expr _ e => .expr nowhere e.outline
  | .ret _ e => .ret nowhere e.outline
  | .ifThen _ c a => .ifThen nowhere c.outline a.outline
  | .ifElse _ c a b => .ifElse nowhere c.outline a.outline b.outline
  | .while_ _ c a => .while_ nowhere c.outline a.outline
  | .for_ _ i c u a =>
    .for_ nowhere (i.map Expr.outline) (c.map Expr.outline) (u.map Expr.outline) a.outline
  | .block _ ss => .block nowhere (outlineAll ss)
  | .bare _ => .bare nowhere

def outlineAll : List Stmt → List Stmt
  | [] => []
  | s :: ss => s.outline :: outlineAll ss

end

/-! ## The code of an outline -/

theorem VarRef.addressCode_outline (r : VarRef) (d : Nat) :
    r.outline.addressCode d = r.addressCode d := rfl

theorem Expr.code_outline (e : Expr) (d : Nat) : e.outline.code d = e.code d := by
  induction e generalizing d with
  | number l value => rfl
  | var r => rfl
  | binary l op a b iha ihb => simp only [outline, code, iha, ihb]
  | assign l r e ih => simp only [outline, code, VarRef.addressCode_outline, ih]
  | bare l => rfl

theorem conditionCode_outline (e : Expr) (target : String) :
    conditionCode e.outline target = conditionCode e target := by
  rw [conditionCode, e.code_outline, conditionCode]

theorem discardedCode_outline (e : Expr) : discardedCode e.outline = discardedCode e := by
  rw [discardedCode, e.code_outline, discardedCode]

theorem clauseCode_outline (clause : Option Expr) {body : Expr → List Emission}
    (hbody : ∀ e : Expr, body e.outline = body e) :
    clauseCode (clause.map Expr.outline) body = clauseCode clause body := by
  cases clause with
  | none => rfl
  | some e => exact hbody e

theorem loopCode_outline (test update : Option Expr) (testRemark updateRemark : List Emission)
    (n : Nat) (body : List Emission) :
    loopCode (test.map Expr.outline) testRemark (update.map Expr.outline) updateRemark n body =
      loopCode test testRemark update updateRemark n body := by
  rw [loopCode, clauseCode_outline test fun e => by rw [conditionCode_outline],
    clauseCode_outline update fun e => by rw [discardedCode_outline], loopCode]

mutual

theorem Stmt.labelCount_outline : ∀ s : Stmt, s.outline.labelCount = s.labelCount
  | .expr _ _ => rfl
  | .ret _ _ => rfl
  | .ifThen _ _ a => congrArg (· + 1) a.labelCount_outline
  | .ifElse _ _ a b => by
      simp only [Stmt.outline, Stmt.labelCount, a.labelCount_outline, b.labelCount_outline]
  | .while_ _ _ a => congrArg (· + 1) a.labelCount_outline
  | .for_ _ _ _ _ a => congrArg (· + 1) a.labelCount_outline
  | .block _ ss => labelCountAll_outlineAll ss
  | .bare _ => rfl

theorem labelCountAll_outlineAll : ∀ ss : List Stmt,
    labelCountAll (outlineAll ss) = labelCountAll ss
  | [] => rfl
  | s :: ss => by
      simp only [outlineAll, labelCountAll, s.labelCount_outline, labelCountAll_outlineAll ss]

end

mutual

theorem Stmt.code_outline (comments : Bool) : ∀ (s : Stmt) (n : Nat),
    s.outline.code comments n = s.code comments n
  | .expr _ e, _ => by simp only [Stmt.outline, Stmt.code, e.code_outline]
  | .ret _ e, _ => by simp only [Stmt.outline, Stmt.code, e.code_outline]
  | .ifThen _ c a, n => by
      simp only [Stmt.outline, Stmt.code, conditionCode_outline, a.code_outline comments]
  | .ifElse _ c a b, n => by
      simp only [Stmt.outline, Stmt.code, conditionCode_outline, a.code_outline comments,
        b.code_outline comments, a.labelCount_outline]
  | .while_ _ c a, n => by
      have hloop := loopCode_outline (some c) none (remark comments "while condition") [] n
        (a.code comments (n + 1))
      simp only [Stmt.outline, Stmt.code, a.code_outline comments]
      exact hloop
  | .for_ _ i c u a, n => by
      simp only [Stmt.outline, Stmt.code, loopCode_outline, a.code_outline comments]
      rw [clauseCode_outline i fun e => by rw [discardedCode_outline]]
  | .block _ ss, n => codeAll_outlineAll comments ss n
  | .bare _, _ => rfl

theorem codeAll_outlineAll (comments : Bool) : ∀ (ss : List Stmt) (n : Nat),
    codeAll comments (outlineAll ss) n = codeAll comments ss n
  | [], _ => rfl
  | s :: ss, n => by
      simp only [outlineAll, codeAll, s.code_outline comments, s.labelCount_outline,
        codeAll_outlineAll comments ss]

end

/-! ## Routines -/

/-- The two programs differ in names and places only. -/
structure Program.SameOutline (p q : Program) : Prop where
  statements : outlineAll p.statements = outlineAll q.statements
  size : p.slots.size = q.slots.size

namespace Program.SameOutline

variable {p q : Program}

theorem code (h : p.SameOutline q) (o : RoutineOptions) (frame : Int) :
    p.code o frame = q.code o frame := by
  rw [Program.code, Program.code, h.size, ← codeAll_outlineAll, h.statements, codeAll_outlineAll]

theorem labelCountAll (h : p.SameOutline q) :
    labelCountAll p.statements = StackLang.labelCountAll q.statements := by
  rw [← labelCountAll_outlineAll, h.statements, labelCountAll_outlineAll]

theorem frameSize? (h : p.SameOutline q) (alignment : Int) :
    p.slots.frameSize? alignment = q.slots.frameSize? alignment := by
  rw [SlotTable.frameSize?, SlotTable.frameSize?, h.size]

/-- Programs that were read have the same routine, for all valid options, if they have the same
outline. -/
theorem exists_routine (h : p.SameOutline q) {N : Int → Prop} (hp : p.slots.Sequential)
    (hpall : AllStmts p.slots.Places N p.statements) (hq : q.slots.Sequential)
    (hqall : AllStmts q.slots.Places N q.statements) {o : RoutineOptions} (ho : o.fault? = none) :
    ∃ r, p.routine o = .ok r ∧ q.routine o = .ok r := by
  have halign := RoutineOptions.alignment_pos ho
  have hframe := p.slots.frameSize?_of_pos halign
  refine ⟨_, Program.routine_of_places hp hpall halign hframe, ?_⟩
  rw [h.code, h.labelCountAll]
  rw [h.frameSize?] at hframe
  exact Program.routine_of_places hq hqall halign hframe

end Program.SameOutline

end StackLang
