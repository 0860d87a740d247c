import StackLang.Diagnostic

/-!
# Expressions

Unary minus and the comparisons `>` and `>=` have no form of their own: they are read as a
subtraction from zero and as `<` and `<=` with the operands exchanged.
-/

namespace StackLang

inductive BinaryOp where
  | add
  | sub
  | mul
  | div
  | eq
  | ne
  | lt
  | le
deriving DecidableEq

namespace BinaryOp

def spelling : BinaryOp → String
  | .add => "+"
  | .sub => "-"
  | .mul => "*"
  | .div => "/"
  | .eq => "=="
  | .ne => "!="
  | .lt => "<"
  | .le => "<="

def name : BinaryOp → String
  | .add => "ADD"
  | .sub => "SUBTRACT"
  | .mul => "MULTIPLY"
  | .div => "DIVIDE"
  | .eq => "EQUAL"
  | .ne => "NOT_EQUAL"
  | .lt => "LESS"
  | .le => "LESS_EQ"

def all : List BinaryOp :=
  [.add, .sub, .mul, .div, .eq, .ne, .lt, .le]

def isComparison : BinaryOp → Bool
  | .eq | .ne | .lt | .le => true
  | .add | .sub | .mul | .div => false

end BinaryOp

structure VarRef where
  location : Location
  name : String
  offset : Int
deriving DecidableEq

inductive Expr where
  | number (location : Location) (value : Int)
  | var (ref : VarRef)
  | binary (location : Location) (op : BinaryOp) (left right : Expr)
  | assign (location : Location) (target : VarRef) (value : Expr)
  /-- An expression without a form. No program text yields it and no code can be made of it. -/
  | bare (location : Location)
deriving DecidableEq

namespace Expr

def location : Expr → Location
  | .number l _ => l
  | .var r => r.location
  | .binary l _ _ _ => l
  | .assign l _ _ => l
  | .bare l => l

def formName : Expr → String
  | .number _ _ => "NumberLiteral"
  | .var _ => "VariableReference"
  | .binary _ _ _ _ => "BinaryExpression"
  | .assign _ _ _ => "AssignmentExpression"
  | .bare _ => "Expression"

end Expr

/-- A variable shows its slot. -/
def VarRef.text (r : VarRef) : String :=
  s!"{r.name}[rbp-{r.offset}]"

def Expr.text : Expr → String
  | .number _ value => toString value
  | .var r => r.text
  | .binary _ op left right => "(" ++ left.text ++ " " ++ op.spelling ++ " " ++ right.text ++ ")"
  | .assign _ target value => "(" ++ target.text ++ " = " ++ value.text ++ ")"
  | .bare _ => "<Expression>"

/-- Equality of variable uses up to their places in the text. -/
def VarRef.same (a b : VarRef) : Bool :=
  a.name == b.name && a.offset == b.offset

/-- Equality of expressions up to their places in the text. -/
def Expr.same : Expr → Expr → Bool
  | .number _ a, .number _ b => a == b
  | .var a, .var b => a.same b
  | .binary _ op a b, .binary _ op' a' b' => op == op' && a.same a' && b.same b'
  | .assign _ t v, .assign _ t' v' => t.same t' && v.same v'
  | .bare _, .bare _ => true
  | _, _ => false

end StackLang
