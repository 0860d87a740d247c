import StackLang.Assembly.Routine
import StackLang.Program

/-!
# Generating routines

The hardware stack serves as evaluation stack.

* An expression pushes exactly one word, its value.
* A binary operation evaluates its left operand, then its right one, pops both into `rax` and
  `rdi`, and pushes the result.
* A variable is the word at `[rbp-offset]`. An assignment pushes the address of its target first.
* A statement leaves the evaluation stack as it found it. The value of an expression statement
  goes to `rcx`, which no expression writes, so that the end of the routine can return the last
  one. A return goes to `rax` and jumps past that copy.

The depth of the evaluation stack is counted along the way, and every form is checked to change
it by as much as it should.
-/

namespace StackLang

/-- What the generator counts: values on the evaluation stack, and label indices used. -/
structure Counters where
  depth : Nat := 0
  labels : Nat := 0
deriving DecidableEq

/-- A part of a routine, in the making. One that fails leaves the counters as they are by then. -/
abbrev Emit := Counters → Except (GenerationFault × Counters) (List Emission × Counters)

namespace Emit

def nothing : Emit := fun s => .ok ([], s)

def followedBy (a b : Emit) : Emit := fun s => do
  let (first, s) ← a s
  let (second, s) ← b s
  return (first ++ second, s)

def inOrder : List Emit → Emit
  | [] => nothing
  | a :: rest => a.followedBy (inOrder rest)

def fail (f : GenerationFault) : Emit := fun s => .error (f, s)

def line (l : Line) : Emit := fun s => .ok ([⟨s.depth, l⟩], s)

def label (name : String) : Emit := line (.label name)

def instr (m : Mnemonic) (operands : List Operand := []) : Emit := line (.instr ⟨m, operands⟩)

def comment (enabled : Bool) (text : String) : Emit :=
  if enabled then line (.comment text) else nothing

def push (source : Operand) : Emit := fun s =>
  .ok ([⟨s.depth, .instr ⟨.push, [source]⟩⟩], { s with depth := s.depth + 1 })

/-- Pops a value off the evaluation stack, which must hold one. -/
def pop (into : Register) : Emit := fun s =>
  match s.depth with
  | 0 => .error (.emptyStack into, s)
  | depth + 1 =>
    .ok ([⟨s.depth, .instr ⟨.pop, [.reg into]⟩⟩], { s with depth := depth })

def withLabel (body : Nat → Emit) : Emit := fun s =>
  body s.labels { s with labels := s.labels + 1 }

/-- Code for an expression must leave one value more on the evaluation stack. -/
def leavingOne (e : Expr) (body : Emit) : Emit := fun s => do
  let (code, s') ← body s
  if s'.depth = s.depth + 1 then return (code, s')
  else throw (.unbalancedExpression e.formName ((s'.depth : Int) - s.depth) e.location, s')

/-- Code for a statement must leave the evaluation stack as it was. -/
def balanced (stmt : Stmt) (body : Emit) : Emit := fun s => do
  let (code, s') ← body s
  if s'.depth = s.depth then return (code, s')
  else throw (.unbalancedStatement stmt.formName s.depth s'.depth stmt.location, s')

end Emit

open Emit

/-! ## Labels -/

def elseLabel (index : Nat) : String := s!".Lelse{index}"

def beginLabel (index : Nat) : String := s!".Lbegin{index}"

def endLabel (index : Nat) : String := s!".Lend{index}"

/-- All returns meet here. -/
def returnLabel : String := ".Lreturn"

/-! ## Expressions -/

/-- Combines the operands in `rax` and `rdi`, leaving the result in `rax`. -/
def BinaryOp.emit (op : BinaryOp) : Emit :=
  let compare (set : Mnemonic) : Emit := inOrder [
    instr .cmp [.reg .rax, .reg .rdi],
    instr set [.reg .al],
    instr .movzb [.reg .rax, .reg .al]]
  match op with
  | .add => instr .add [.reg .rax, .reg .rdi]
  | .sub => instr .sub [.reg .rax, .reg .rdi]
  | .mul => instr .imul [.reg .rax, .reg .rdi]
  | .div => inOrder [instr .cqo, instr .idiv [.reg .rdi]]
  | .eq => compare .sete
  | .ne => compare .setne
  | .lt => compare .setl
  | .le => compare .setle

/-- Pushes the address of a variable, whose slot must lie in the frame. -/
def VarRef.emitAddress (frame : Int) (r : VarRef) : Emit :=
  if 0 < r.offset ∧ r.offset ≤ frame then inOrder [
    instr .lea [.reg .rax, .mem .rbp (-r.offset)],
    push (.reg .rax)]
  else fail (.outside frame r)

/-- Pushes a number, through a register if it does not fit 32 bits. -/
def emitNumber (value : Int) : Emit :=
  if fitsImmediate value then push (.imm value)
  else inOrder [instr .mov [.reg .rax, .imm value], push (.reg .rax)]

def Expr.emit (frame : Int) : Expr → Emit
  | e@(.number _ value) => leavingOne e (emitNumber value)
  | e@(.var r) => leavingOne e <| inOrder [
    r.emitAddress frame,
    pop .rax,
    instr .mov [.reg .rax, .mem .rax 0],
    push (.reg .rax)]
  | e@(.binary _ op left right) => leavingOne e <| inOrder [
    left.emit frame,
    right.emit frame,
    pop .rdi,
    pop .rax,
    op.emit,
    push (.reg .rax)]
  | e@(.assign _ target value) => leavingOne e <| inOrder [
    target.emitAddress frame,
    value.emit frame,
    pop .rdi,
    pop .rax,
    instr .mov [.mem .rax 0, .reg .rdi],
    push (.reg .rdi)]
  | .bare location => fail (.unsupportedExpression location)

/-! ## Statements -/

def emitCondition (frame : Int) (e : Expr) (target : String) : Emit := inOrder [
  e.emit frame,
  pop .rax,
  instr .cmp [.reg .rax, .imm 0],
  instr .je [.label target]]

def emitDiscarded (frame : Int) (e : Expr) : Emit := inOrder [e.emit frame, pop .rax]

/-- A part that belongs to a clause and is absent with it. -/
def emitClause (clause : Option Expr) (body : Expr → Emit) : Emit :=
  match clause with
  | some e => body e
  | none => nothing

mutual

def Stmt.emit (comments : Bool) (frame : Int) : Stmt → Emit
  | s@(.expr _ e) => balanced s <| inOrder [e.emit frame, pop .rcx]
  | s@(.ret _ e) => balanced s <| inOrder [
    comment comments "return",
    e.emit frame,
    pop .rax,
    instr .jmp [.label returnLabel]]
  | s@(.ifThen _ c body) => balanced s <| withLabel fun index => inOrder [
    comment comments "if condition",
    emitCondition frame c (endLabel index),
    body.emit comments frame,
    label (endLabel index)]
  | s@(.ifElse _ c body otherwise) => balanced s <| withLabel fun index => inOrder [
    comment comments "if condition",
    emitCondition frame c (elseLabel index),
    body.emit comments frame,
    instr .jmp [.label (endLabel index)],
    label (elseLabel index),
    otherwise.emit comments frame,
    label (endLabel index)]
  | s@(.while_ _ c body) => balanced s <| withLabel fun index => inOrder [
    label (beginLabel index),
    comment comments "while condition",
    emitCondition frame c (endLabel index),
    body.emit comments frame,
    instr .jmp [.label (beginLabel index)],
    label (endLabel index)]
  | s@(.for_ _ initializer c update body) => balanced s <| inOrder [
    emitClause initializer fun e => inOrder [
      comment comments "for init",
      emitDiscarded frame e],
    withLabel fun index => inOrder [
      label (beginLabel index),
      emitClause c fun e => inOrder [
        comment comments "for condition",
        emitCondition frame e (endLabel index)],
      body.emit comments frame,
      emitClause update fun e => inOrder [
        comment comments "for update",
        emitDiscarded frame e],
      instr .jmp [.label (beginLabel index)],
      label (endLabel index)]]
  | s@(.block _ body) => balanced s (emitAll comments frame body)
  | .bare location => fail (.unsupportedStatement location)

def emitAll (comments : Bool) (frame : Int) : List Stmt → Emit
  | [] => nothing
  | s :: rest => (s.emit comments frame).followedBy (emitAll comments frame rest)

end

/-! ## Routines -/

def emitPrologue (o : RoutineOptions) (slotCount : Nat) (frame : Int) : Emit := inOrder [
  line .intelDirective,
  line (.global o.entry),
  label o.entry,
  comment o.comments s!"prologue: {slotCount} variables, {frame} byte frame",
  instr .push [.reg .rbp],
  instr .mov [.reg .rbp, .reg .rsp],
  if frame = 0 then nothing else instr .sub [.reg .rsp, .imm frame],
  instr .mov [.reg .rcx, .imm 0]]

/-- Returns the last value, or the one in `rax` when entered at the label. -/
def emitEpilogue : Emit := inOrder [
  instr .mov [.reg .rax, .reg .rcx],
  label returnLabel,
  instr .mov [.reg .rsp, .reg .rbp],
  instr .pop [.reg .rbp],
  instr .ret]

/-- A generator, with its counters as the program before left them. -/
structure Generator where
  options : RoutineOptions := {}
  counters : Counters := {}
deriving DecidableEq

/-- Makes the routine of a program. The counters start over, and every slot of the table must lie
in the frame. -/
def Generator.generate (g : Generator) (p : Program) :
    Except GenerationFault Routine × Generator :=
  let g : Generator := { g with counters := {} }
  match p.slots.frameSize? g.options.alignment with
  | none => (.error .zeroAlignment, g)
  | some frame =>
    match p.slots.slots.find? fun slot => frame < slot.offset with
    | some slot => (.error (.uncovered frame slot), g)
    | none =>
      let emit := inOrder [
        emitPrologue g.options p.slots.size frame,
        emitAll g.options.comments frame p.statements,
        emitEpilogue]
      match emit g.counters with
      | .error (fault, s) => (.error fault, { g with counters := s })
      | .ok (code, s) => (.ok ⟨code, s.labels, frame⟩, { g with counters := s })

def Program.routine (p : Program) (o : RoutineOptions := {}) : Except GenerationFault Routine :=
  (Generator.generate { options := o } p).1

end StackLang
