import StackLang.Machine.State
import StackLang.Program

/-!
# The meaning of programs

What a program computes, without regard to any machine code. Values are words; sums, differences
and products wrap around, and a quotient is rounded towards zero. A program yields the value of
the first return it executes, or else the value of the last expression statement it executed.

What tells variables apart is left open below: a `key` of each use. In a program it is the name.
-/

namespace StackLang

variable {κ : Type} [DecidableEq κ]

abbrev Store (κ : Type) := κ → Word

namespace Store

def initial : Store κ := fun _ => 0

def set (s : Store κ) (k : κ) (w : Word) : Store κ :=
  fun k' => if k' = k then w else s k'

end Store

inductive Trap where
  /-- A division by zero, or of the least number by minus one. -/
  | division
  /-- An expression or a statement without a form. -/
  | formless
deriving DecidableEq

def Word.ofBool (b : Bool) : Word := if b then 1 else 0

/-- The value of an operation, unless it divides by zero or the quotient is no word. -/
def BinaryOp.eval (op : BinaryOp) (x y : Word) : Except Trap Word :=
  match op with
  | .add => .ok (x + y)
  | .sub => .ok (x - y)
  | .mul => .ok (x * y)
  | .div =>
    if y = 0 ∨ x = BitVec.intMin 64 ∧ y = -1 then .error .division else .ok (x.sdiv y)
  | .eq => .ok (Word.ofBool (x == y))
  | .ne => .ok (Word.ofBool (x != y))
  | .lt => .ok (Word.ofBool (x.slt y))
  | .le => .ok (Word.ofBool (x.sle y))

/-- The value of an expression, and the variables after it. The left operand comes first. -/
def Expr.eval (key : VarRef → κ) : Expr → Store κ → Except Trap (Word × Store κ)
  | .number _ value, s => .ok (Word.ofInt value, s)
  | .var r, s => .ok (s (key r), s)
  | .binary _ op left right, s => do
    let (x, s) ← left.eval key s
    let (y, s) ← right.eval key s
    return (← op.eval x y, s)
  | .assign _ target value, s => do
    let (w, s) ← value.eval key s
    return (w, s.set (key target) w)
  | .bare _, _ => .error .formless

structure Env (κ : Type) where
  store : Store κ := Store.initial
  last : Word := 0

inductive Ending (κ : Type) where
  | next (env : Env κ)
  | returned (value : Word)

def runClause (key : VarRef → κ) (clause : Option Expr) (env : Env κ) : Except Trap (Env κ) :=
  match clause with
  | none => .ok env
  | some e => do
    let (_, s) ← e.eval key env.store
    return { env with store := s }

/-- A condition: whether it holds, and the variables after it. A condition that is absent
holds. -/
def testClause (key : VarRef → κ) (clause : Option Expr) (env : Env κ) :
    Except Trap (Bool × Env κ) :=
  match clause with
  | none => .ok (true, env)
  | some e => do
    let (w, s) ← e.eval key env.store
    return (w != 0, { env with store := s })

def Ending.andThen (e : Ending κ) (go : Env κ → Option (Except Trap (Ending κ))) :
    Option (Except Trap (Ending κ)) :=
  match e with
  | .next env => go env
  | .returned value => some (.ok (.returned value))

def Trap.guard {α β : Type} (r : Except Trap α) (go : α → Option (Except Trap β)) :
    Option (Except Trap β) :=
  match r with
  | .ok a => go a
  | .error t => some (.error t)

mutual

/-- Executes a statement for at most `fuel` levels of nesting and rounds of loops. -/
def Stmt.exec (key : VarRef → κ) (fuel : Nat) (s : Stmt) (env : Env κ) :
    Option (Except Trap (Ending κ)) :=
  match fuel with
  | 0 => none
  | fuel + 1 =>
    match s with
    | .expr _ e => Trap.guard (e.eval key env.store) fun (w, s) => some (.ok (.next ⟨s, w⟩))
    | .ret _ e => Trap.guard (e.eval key env.store) fun (w, _) => some (.ok (.returned w))
    | .ifThen _ c body => Trap.guard (testClause key (some c) env) fun (holds, env) =>
      if holds then body.exec key fuel env else some (.ok (.next env))
    | .ifElse _ c body otherwise => Trap.guard (testClause key (some c) env) fun (holds, env) =>
      if holds then body.exec key fuel env else otherwise.exec key fuel env
    | .while_ _ c body => execLoop key fuel (some c) none body env
    | .for_ _ initializer c update body => Trap.guard (runClause key initializer env) fun env =>
      execLoop key fuel c update body env
    | .block _ body => execAll key fuel body env
    | .bare _ => some (.error .formless)

def execAll (key : VarRef → κ) (fuel : Nat) (body : List Stmt) (env : Env κ) :
    Option (Except Trap (Ending κ)) :=
  match fuel with
  | 0 => none
  | fuel + 1 =>
    match body with
    | [] => some (.ok (.next env))
    | s :: rest =>
      (s.exec key fuel env).bind fun r => Trap.guard r fun ending =>
        ending.andThen (execAll key fuel rest)

def execLoop (key : VarRef → κ) (fuel : Nat) (c update : Option Expr) (body : Stmt)
    (env : Env κ) : Option (Except Trap (Ending κ)) :=
  match fuel with
  | 0 => none
  | fuel + 1 => Trap.guard (testClause key c env) fun (holds, env) =>
    if holds then
      (body.exec key fuel env).bind fun r => Trap.guard r fun ending =>
        ending.andThen fun env => Trap.guard (runClause key update env) fun env =>
          execLoop key fuel c update body env
    else some (.ok (.next env))

end

/-- The value a program yields, if it ends within the fuel. Variables go by their names. -/
def Program.value (p : Program) (fuel : Nat) : Option (Except Trap Word) :=
  (execAll VarRef.name fuel p.statements {}).map fun r => r.map fun ending =>
    match ending with
    | .next env => env.last
    | .returned value => value

namespace Program

/-- The program ends with a value, taken as a signed number. -/
def EndsWith (p : Program) (value : Int) : Prop :=
  ∃ fuel w, p.value fuel = some (.ok w) ∧ w.toInt = value

/-- The program gets to a division that has no result. -/
def DividesInVain (p : Program) : Prop :=
  ∃ fuel, p.value fuel = some (.error .division)

def NeverEnds (p : Program) : Prop :=
  ∀ fuel, p.value fuel = none

end Program

end StackLang
