import StackLang.Expr
import StackLang.Slot

/-!
# Programs

A program is a list of statements together with the slots of its variables.
-/

namespace StackLang

inductive Stmt where
  | expr (location : Location) (value : Expr)
  | ret (location : Location) (value : Expr)
  | ifThen (location : Location) (condition : Expr) (body : Stmt)
  | ifElse (location : Location) (condition : Expr) (body otherwise : Stmt)
  | while_ (location : Location) (condition : Expr) (body : Stmt)
  | for_ (location : Location) (initializer condition update : Option Expr) (body : Stmt)
  | block (location : Location) (body : List Stmt)
  /-- A statement without a form. No program text yields it and no code can be made of it. -/
  | bare (location : Location)

namespace Stmt

def location : Stmt → Location
  | .expr l _ => l
  | .ret l _ => l
  | .ifThen l _ _ => l
  | .ifElse l _ _ _ => l
  | .while_ l _ _ => l
  | .for_ l _ _ _ _ => l
  | .block l _ => l
  | .bare l => l

def formName : Stmt → String
  | .expr _ _ => "ExpressionStatement"
  | .ret _ _ => "ReturnStatement"
  | .ifThen _ _ _ => "IfStatement"
  | .ifElse _ _ _ _ => "IfStatement"
  | .while_ _ _ _ => "WhileStatement"
  | .for_ _ _ _ _ _ => "ForStatement"
  | .block _ _ => "BlockStatement"
  | .bare _ => "Statement"

end Stmt

structure Program where
  location : Location
  statements : List Stmt
  slots : SlotTable

/-! ## Programs as text -/

/-- A line of a program tree, two spaces in for each level. -/
def treeLine (level : Nat) (text : String) : String :=
  String.ofList (List.replicate (2 * level) ' ') ++ text

def clauseText : Option Expr → String
  | some e => e.text
  | none => ""

mutual

def Stmt.tree (level : Nat) : Stmt → List String
  | .expr _ e => [treeLine level ("Expr: " ++ e.text)]
  | .ret _ e => [treeLine level ("Return " ++ e.text)]
  | .ifThen _ c body =>
    treeLine level ("If (" ++ c.text ++ ")") :: treeLine (level + 1) "Then:" ::
      body.tree (level + 2)
  | .ifElse _ c body otherwise =>
    treeLine level ("If (" ++ c.text ++ ")") :: treeLine (level + 1) "Then:" ::
      body.tree (level + 2) ++ treeLine (level + 1) "Else:" :: otherwise.tree (level + 2)
  | .while_ _ c body => treeLine level ("While (" ++ c.text ++ ")") :: body.tree (level + 1)
  | .for_ _ i c u body =>
    treeLine level
        ("For (" ++ clauseText i ++ "; " ++ clauseText c ++ "; " ++ clauseText u ++ ")") ::
      body.tree (level + 1)
  | .block _ body => treeLine level "Block" :: treeOfAll (level + 1) body
  | .bare _ => [treeLine level "<Statement>"]

def treeOfAll (level : Nat) : List Stmt → List String
  | [] => []
  | s :: rest => s.tree level ++ treeOfAll level rest

end

def Program.tree (p : Program) : String :=
  let noun := if p.slots.size = 1 then "variable" else "variables"
  String.intercalate "\n" (s!"Program ({p.slots.size} {noun})" :: treeOfAll 1 p.statements)

/-! ## Equality up to places -/

def sameClause : Option Expr → Option Expr → Bool
  | some a, some b => a.same b
  | none, none => true
  | _, _ => false

mutual

def Stmt.same : Stmt → Stmt → Bool
  | .expr _ a, .expr _ b => a.same b
  | .ret _ a, .ret _ b => a.same b
  | .ifThen _ c s, .ifThen _ c' s' => c.same c' && s.same s'
  | .ifElse _ c s t, .ifElse _ c' s' t' => c.same c' && s.same s' && t.same t'
  | .while_ _ c s, .while_ _ c' s' => c.same c' && s.same s'
  | .for_ _ i c u s, .for_ _ i' c' u' s' =>
    sameClause i i' && sameClause c c' && sameClause u u' && s.same s'
  | .block _ a, .block _ b => sameAll a b
  | .bare _, .bare _ => true
  | _, _ => false

def sameAll : List Stmt → List Stmt → Bool
  | [], [] => true
  | s :: rest, s' :: rest' => s.same s' && sameAll rest rest'
  | _, _ => false

end

/-- Equality of programs up to places. The slot tables do not count; the slots of the uses do. -/
def Program.same (p q : Program) : Bool :=
  sameAll p.statements q.statements

end StackLang
