import Mathlib.Tactic
import StackLang.Assembly.Generate

/-!
# The shape of routines

The code of every form, written down without counters and checks. Statements are only ever emitted
at depth zero, and the label indices they use are the numbers from the one they are given on.
-/

namespace StackLang

/-- The expression is made of forms, all its variables satisfy `P` and all its numbers `N`. -/
def Expr.All (P : VarRef → Prop) (N : Int → Prop) : Expr → Prop
  | .number _ value => N value
  | .var r => P r
  | .binary _ _ a b => a.All P N ∧ b.All P N
  | .assign _ r e => P r ∧ e.All P N
  | .bare _ => False

def ClauseAll (P : VarRef → Prop) (N : Int → Prop) : Option Expr → Prop
  | none => True
  | some e => e.All P N

mutual

def Stmt.All (P : VarRef → Prop) (N : Int → Prop) : Stmt → Prop
  | .expr _ e | .ret _ e => e.All P N
  | .ifThen _ c a => c.All P N ∧ a.All P N
  | .ifElse _ c a b => c.All P N ∧ a.All P N ∧ b.All P N
  | .while_ _ c a => c.All P N ∧ a.All P N
  | .for_ _ i c u a => ClauseAll P N i ∧ ClauseAll P N c ∧ ClauseAll P N u ∧ a.All P N
  | .block _ ss => AllStmts P N ss
  | .bare _ => False

def AllStmts (P : VarRef → Prop) (N : Int → Prop) : List Stmt → Prop
  | [] => True
  | s :: ss => s.All P N ∧ AllStmts P N ss

end

section

variable {P Q : VarRef → Prop} {M N : Int → Prop}

theorem Expr.All.mono (hpq : ∀ r, P r → Q r) (hmn : ∀ v, M v → N v) {e : Expr}
    (h : e.All P M) : e.All Q N := by
  induction e with
  | number l value => exact hmn value h
  | var r => exact hpq r h
  | binary l op a b iha ihb => exact ⟨iha h.1, ihb h.2⟩
  | assign l r e ih => exact ⟨hpq r h.1, ih h.2⟩
  | bare l => exact h

theorem ClauseAll.mono (hpq : ∀ r, P r → Q r) (hmn : ∀ v, M v → N v) {clause : Option Expr}
    (h : ClauseAll P M clause) : ClauseAll Q N clause := by
  cases clause with
  | none => trivial
  | some e => exact Expr.All.mono hpq hmn h

mutual

theorem Stmt.All.mono (hpq : ∀ r, P r → Q r) (hmn : ∀ v, M v → N v) :
    ∀ {s : Stmt}, s.All P M → s.All Q N
  | .expr _ _, h => Expr.All.mono hpq hmn h
  | .ret _ _, h => Expr.All.mono hpq hmn h
  | .ifThen _ _ _, h => ⟨Expr.All.mono hpq hmn h.1, Stmt.All.mono hpq hmn h.2⟩
  | .ifElse _ _ _ _, h => ⟨Expr.All.mono hpq hmn h.1, Stmt.All.mono hpq hmn h.2.1,
      Stmt.All.mono hpq hmn h.2.2⟩
  | .while_ _ _ _, h => ⟨Expr.All.mono hpq hmn h.1, Stmt.All.mono hpq hmn h.2⟩
  | .for_ _ _ _ _ _, h => ⟨ClauseAll.mono hpq hmn h.1, ClauseAll.mono hpq hmn h.2.1,
      ClauseAll.mono hpq hmn h.2.2.1, Stmt.All.mono hpq hmn h.2.2.2⟩
  | .block _ _, h => AllStmts.mono hpq hmn h
  | .bare _, h => h.elim

theorem AllStmts.mono (hpq : ∀ r, P r → Q r) (hmn : ∀ v, M v → N v) :
    ∀ {ss : List Stmt}, AllStmts P M ss → AllStmts Q N ss
  | [], _ => trivial
  | _ :: _, h => ⟨Stmt.All.mono hpq hmn h.1, AllStmts.mono hpq hmn h.2⟩

end

end

/-- The slot of the variable lies in a frame of the given size. -/
def VarRef.InFrame (frame : Int) (r : VarRef) : Prop :=
  0 < r.offset ∧ r.offset ≤ frame

/-! ## Expressions -/

/-- An instruction at a depth. -/
def Emission.instr (depth : Nat) (m : Mnemonic) (operands : List Operand := []) : Emission :=
  ⟨depth, .instr ⟨m, operands⟩⟩

def Emission.label (name : String) : Emission :=
  ⟨0, .label name⟩

open Emission (instr label)

def VarRef.addressCode (r : VarRef) (d : Nat) : List Emission :=
  [instr d .lea [.reg .rax, .mem .rbp (-r.offset)], instr d .push [.reg .rax]]

def numberCode (value : Int) (d : Nat) : List Emission :=
  if fitsImmediate value then [instr d .push [.imm value]]
  else [instr d .mov [.reg .rax, .imm value], instr d .push [.reg .rax]]

def compareCode (set : Mnemonic) (d : Nat) : List Emission :=
  [instr d .cmp [.reg .rax, .reg .rdi], instr d set [.reg .al],
    instr d .movzb [.reg .rax, .reg .al]]

def BinaryOp.code (op : BinaryOp) (d : Nat) : List Emission :=
  match op with
  | .add => [instr d .add [.reg .rax, .reg .rdi]]
  | .sub => [instr d .sub [.reg .rax, .reg .rdi]]
  | .mul => [instr d .imul [.reg .rax, .reg .rdi]]
  | .div => [instr d .cqo, instr d .idiv [.reg .rdi]]
  | .eq => compareCode .sete d
  | .ne => compareCode .setne d
  | .lt => compareCode .setl d
  | .le => compareCode .setle d

def Expr.code : Expr → Nat → List Emission
  | .number _ value, d => numberCode value d
  | .var r, d => r.addressCode d ++ [instr (d + 1) .pop [.reg .rax],
      instr d .mov [.reg .rax, .mem .rax 0], instr d .push [.reg .rax]]
  | .binary _ op a b, d => a.code d ++ (b.code (d + 1) ++ (
      [instr (d + 2) .pop [.reg .rdi], instr (d + 1) .pop [.reg .rax]] ++ (op.code d ++
        [instr d .push [.reg .rax]])))
  | .assign _ r e, d => r.addressCode d ++ (e.code (d + 1) ++
      [instr (d + 2) .pop [.reg .rdi], instr (d + 1) .pop [.reg .rax],
        instr d .mov [.mem .rax 0, .reg .rdi], instr d .push [.reg .rdi]])
  | .bare _, _ => []

/-! ## Statements -/

def remark (comments : Bool) (text : String) : List Emission :=
  if comments then [⟨0, .comment text⟩] else []

def conditionCode (e : Expr) (target : String) : List Emission :=
  e.code 0 ++ [instr 1 .pop [.reg .rax], instr 0 .cmp [.reg .rax, .imm 0],
    instr 0 .je [.label target]]

def discardedCode (e : Expr) : List Emission :=
  e.code 0 ++ [instr 1 .pop [.reg .rax]]

def clauseCode (clause : Option Expr) (body : Expr → List Emission) : List Emission :=
  match clause with
  | some e => body e
  | none => []

/-- The rounds of a loop around the code of its body. -/
def loopCode (test : Option Expr) (testRemark : List Emission) (update : Option Expr)
    (updateRemark : List Emission) (index : Nat) (body : List Emission) : List Emission :=
  label (beginLabel index) :: (
    clauseCode test (fun e => testRemark ++ conditionCode e (endLabel index)) ++ (body ++ (
      clauseCode update (fun e => updateRemark ++ discardedCode e) ++
        [instr 0 .jmp [.label (beginLabel index)], label (endLabel index)])))

mutual

/-- The number of label indices a statement uses. -/
def Stmt.labelCount : Stmt → Nat
  | .ifThen _ _ a => a.labelCount + 1
  | .ifElse _ _ a b => a.labelCount + b.labelCount + 1
  | .while_ _ _ a => a.labelCount + 1
  | .for_ _ _ _ _ a => a.labelCount + 1
  | .block _ ss => labelCountAll ss
  | .expr _ _ | .ret _ _ | .bare _ => 0

def labelCountAll : List Stmt → Nat
  | [] => 0
  | s :: ss => s.labelCount + labelCountAll ss

end

mutual

/-- The code of a statement with label indices from `n` on. -/
def Stmt.code (comments : Bool) : Stmt → Nat → List Emission
  | .expr _ e, _ => e.code 0 ++ [instr 1 .pop [.reg .rcx]]
  | .ret _ e, _ => remark comments "return" ++ (e.code 0 ++
      [instr 1 .pop [.reg .rax], instr 0 .jmp [.label returnLabel]])
  | .ifThen _ c a, n => remark comments "if condition" ++ (conditionCode c (endLabel n) ++ (
      a.code comments (n + 1) ++ [label (endLabel n)]))
  | .ifElse _ c a b, n => remark comments "if condition" ++ (conditionCode c (elseLabel n) ++ (
      a.code comments (n + 1) ++ (instr 0 .jmp [.label (endLabel n)] :: label (elseLabel n) :: (
        b.code comments (n + 1 + a.labelCount) ++ [label (endLabel n)]))))
  | .while_ _ c a, n => loopCode (some c) (remark comments "while condition") none [] n
      (a.code comments (n + 1))
  | .for_ _ i c u a, n =>
      clauseCode i (fun e => remark comments "for init" ++ discardedCode e) ++
        loopCode c (remark comments "for condition") u (remark comments "for update") n
          (a.code comments (n + 1))
  | .block _ ss, n => codeAll comments ss n
  | .bare _, _ => []

def codeAll (comments : Bool) : List Stmt → Nat → List Emission
  | [], _ => []
  | s :: ss, n => s.code comments n ++ codeAll comments ss (n + s.labelCount)

end

/-! ## Routines -/

def prologueCode (o : RoutineOptions) (slotCount : Nat) (frame : Int) : List Emission :=
  [⟨0, .intelDirective⟩, ⟨0, .global o.entry⟩, label o.entry] ++ (
    remark o.comments s!"prologue: {slotCount} variables, {frame} byte frame" ++ (
      [instr 0 .push [.reg .rbp], instr 0 .mov [.reg .rbp, .reg .rsp]] ++ (
        (if frame = 0 then [] else [instr 0 .sub [.reg .rsp, .imm frame]]) ++
          [instr 0 .mov [.reg .rcx, .imm 0]])))

def epilogueCode : List Emission :=
  [instr 0 .mov [.reg .rax, .reg .rcx], label returnLabel, instr 0 .mov [.reg .rsp, .reg .rbp],
    instr 0 .pop [.reg .rbp], instr 0 .ret]

def Program.code (p : Program) (o : RoutineOptions) (frame : Int) : List Emission :=
  prologueCode o p.slots.size frame ++ (codeAll o.comments p.statements 0 ++ epilogueCode)

end StackLang
