import StackLang.Proofs.Code

/-!
# The nodes of a program

A program as the list of its nodes, each of them before its parts. The parts come in the order in
which the generator gets to them.
-/

namespace StackLang

/-- The expressions that occur in an expression, with itself. The target of an assignment counts as
a variable. -/
def Expr.parts : Expr → List Expr
  | e@(.number _ _) | e@(.var _) | e@(.bare _) => [e]
  | e@(.binary _ _ a b) => e :: (a.parts ++ b.parts)
  | e@(.assign _ r a) => e :: .var r :: a.parts

inductive Node where
  | expr (e : Expr)
  | stmt (s : Stmt)

def Expr.nodes (e : Expr) : List Node :=
  e.parts.map .expr

def clauseNodes : Option Expr → List Node
  | none => []
  | some e => e.nodes

mutual

def Stmt.nodes : Stmt → List Node
  | s@(.expr _ e) | s@(.ret _ e) => .stmt s :: e.nodes
  | s@(.ifThen _ c a) => .stmt s :: (c.nodes ++ a.nodes)
  | s@(.ifElse _ c a b) => .stmt s :: (c.nodes ++ (a.nodes ++ b.nodes))
  | s@(.while_ _ c a) => .stmt s :: (c.nodes ++ a.nodes)
  -- The update stands before the body in the text, but after it in the code.
  | s@(.for_ _ i c u a) =>
    .stmt s :: (clauseNodes i ++ (clauseNodes c ++ (a.nodes ++ clauseNodes u)))
  | s@(.block _ ss) => .stmt s :: nodesAll ss
  | s@(.bare _) => [.stmt s]

def nodesAll : List Stmt → List Node
  | [] => []
  | s :: ss => s.nodes ++ nodesAll ss

end

def Program.nodes (p : Program) : List Node :=
  nodesAll p.statements

section

variable {P : VarRef → Prop} {N : Int → Prop}

/-- What holds throughout an expression holds throughout its parts. -/
theorem Expr.All.parts {e : Expr} (h : e.All P N) : ∀ part ∈ e.parts, part.All P N := by
  induction e with
  | number l value => simpa [Expr.parts] using h
  | var r => simpa [Expr.parts] using h
  | binary l op a b iha ihb =>
      exact List.forall_mem_cons.mpr ⟨h, List.forall_mem_append.mpr ⟨iha h.1, ihb h.2⟩⟩
  | assign l r a ih =>
      exact List.forall_mem_cons.mpr ⟨h, List.forall_mem_cons.mpr ⟨h.1, ih h.2⟩⟩
  | bare l => exact h.elim

/-- What holds throughout a statement, at one of its nodes. -/
def Node.All (P : VarRef → Prop) (N : Int → Prop) : Node → Prop
  | .expr e => e.All P N
  | .stmt s => s.All P N

theorem Expr.All.nodes {e : Expr} (h : e.All P N) : ∀ node ∈ e.nodes, node.All P N :=
  List.forall_mem_map.mpr h.parts

theorem ClauseAll.nodes {clause : Option Expr} (h : ClauseAll P N clause) :
    ∀ node ∈ clauseNodes clause, node.All P N := by
  cases clause with
  | none => simp [clauseNodes]
  | some e => exact Expr.All.nodes h

mutual

theorem Stmt.All.nodes : ∀ {s : Stmt}, s.All P N → ∀ node ∈ s.nodes, node.All P N
  | .expr _ _, h => List.forall_mem_cons.mpr ⟨h, Expr.All.nodes h⟩
  | .ret _ _, h => List.forall_mem_cons.mpr ⟨h, Expr.All.nodes h⟩
  | .ifThen _ _ _, h => List.forall_mem_cons.mpr ⟨h,
      List.forall_mem_append.mpr ⟨Expr.All.nodes h.1, Stmt.All.nodes h.2⟩⟩
  | .ifElse _ _ _ _, h => List.forall_mem_cons.mpr ⟨h,
      List.forall_mem_append.mpr ⟨Expr.All.nodes h.1,
        List.forall_mem_append.mpr ⟨Stmt.All.nodes h.2.1, Stmt.All.nodes h.2.2⟩⟩⟩
  | .while_ _ _ _, h => List.forall_mem_cons.mpr ⟨h,
      List.forall_mem_append.mpr ⟨Expr.All.nodes h.1, Stmt.All.nodes h.2⟩⟩
  | .for_ _ _ _ _ _, h => List.forall_mem_cons.mpr ⟨h,
      List.forall_mem_append.mpr ⟨ClauseAll.nodes h.1,
        List.forall_mem_append.mpr ⟨ClauseAll.nodes h.2.1,
          List.forall_mem_append.mpr ⟨Stmt.All.nodes h.2.2.2, ClauseAll.nodes h.2.2.1⟩⟩⟩⟩
  | .block _ _, h => List.forall_mem_cons.mpr ⟨h, AllStmts.nodes h⟩
  | .bare _, h => h.elim

theorem AllStmts.nodes :
    ∀ {ss : List Stmt}, AllStmts P N ss → ∀ node ∈ nodesAll ss, node.All P N
  | [], _ => fun _ hnode => by cases hnode
  | _ :: _, h => List.forall_mem_append.mpr ⟨Stmt.All.nodes h.1, AllStmts.nodes h.2⟩

end

end

end StackLang
