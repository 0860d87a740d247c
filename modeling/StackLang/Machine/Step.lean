import StackLang.Machine.Bits
import StackLang.Machine.Fault

/-!
# Executing instructions

What an instruction did before it failed stays done: `pop` and `ret`, for instance, have moved
the stack pointer by then.
-/

namespace StackLang

abbrev Exec := EStateM FaultCause State

namespace Exec

/-! ## Registers and memory -/

def readRegister (r : Register) : Exec Word := do
  match (← get).registers.read? r with
  | some w => return w
  | none => throw (.unknownRegister r.name)

def writeRegister (r : Register) (w : Word) : Exec Unit :=
  modify fun s => { s with registers := s.registers.write r w }

def readMemory (address : Word) : Exec Word := do
  return (← get).memory.read address

def writeMemory (address value : Word) : Exec Unit :=
  modify fun s => { s with memory := s.memory.write address value }

def address (base : Register) (displacement : Int) : Exec Word := do
  return (← readRegister base) + Word.ofInt displacement

def readOperand : Operand → Exec Word
  | .reg r => readRegister r
  | .imm value => return Word.ofInt value
  | .mem base displacement => do readMemory (← address base displacement)
  | o@(.label _) => throw (.unreadable o)

def writeOperand (o : Operand) (w : Word) : Exec Unit :=
  match o with
  | .reg r => writeRegister r w
  | .mem base displacement => do writeMemory (← address base displacement) w
  | .imm _ | .label _ => throw (.unwritable o)

/-- Pushes a word: the stack grows towards lower addresses. -/
def push (w : Word) : Exec Unit :=
  modify fun s =>
    let top := s.registers.rsp - 8
    { s with
      registers := { s.registers with rsp := top }
      memory := s.memory.write top w }

def pop : Exec Word :=
  modifyGet fun s =>
    let top := s.registers.rsp
    (s.memory.read top, { s with registers := { s.registers with rsp := top + 8 } })

def setFlags (flags : Flags) : Exec Unit :=
  modify fun s => { s with flags := flags }

/-! ## Arithmetic -/

/-- Sets the flags by the exact result of an operation on two operands, which it yields. -/
def arithmetic (operation : Int → Int → Int) (left right : Operand) : Exec Word := do
  let x ← readOperand left
  let y ← readOperand right
  let exact := operation x.toInt y.toInt
  setFlags (.ofResult exact)
  return Word.ofInt exact

/-- Signed multiplication. Of the flags only the one for overflow changes. -/
def multiply (left right : Operand) : Exec Unit := do
  let x ← readOperand left
  let y ← readOperand right
  let exact := x.toInt * y.toInt
  writeOperand left (Word.ofInt exact)
  modify fun s =>
    { s with flags := { s.flags with overflow := (Word.ofInt exact).toInt != exact } }

/-- The sign of `rax` in every bit of `rdx`. -/
def extendSign : Exec Unit :=
  modify fun s =>
    { s with registers := { s.registers with rdx := if s.registers.rax.msb then -1 else 0 } }

/-- Divides the 128-bit number in `rdx` and `rax`, rounding towards zero. -/
def divide (divisor : Word) : Exec Unit := do
  let d := divisor.toInt
  if d = 0 then throw .divisionByZero
  let r := (← get).registers
  let dividend := Bits.joined r.rdx.toInt r.rax.toNat
  let quotient := Bits.quotient dividend d
  if Bits.toSigned quotient ≠ quotient then throw .quotientRange
  modify fun s =>
    { s with
      registers :=
        { s.registers with
          rax := Word.ofInt quotient
          rdx := Word.ofInt (Bits.remainder dividend d) } }

/-! ## Control -/

/-- The return address of the outermost routine, which halts the machine. -/
def haltAddress : Word := 0xDEADBEEF0000

def jump (labels : LabelTable) (target : Operand) : Exec Unit :=
  match target with
  | .label name =>
    match labels.find? name with
    | some index => modify fun s => { s with pc := index }
    | none => throw (.unknownLabel name)
  | _ => throw .noTarget

def returnFromRoutine : Exec Unit := do
  let address ← pop
  if address = haltAddress then modify fun s => { s with halted := true }
  else throw (.returnAddress address.toNat)

def setIf (o : Operand) (condition : Flags → Bool) : Exec Unit := do
  writeOperand o (if condition (← get).flags then 1 else 0)

/-- Executes an instruction. Operands beyond those it takes are ignored. -/
def instr (labels : LabelTable) (i : Instr) : Exec Unit :=
  match i.mnemonic, i.operands with
  | .push, source :: _ => do push (← readOperand source)
  | .pop, target :: _ => do writeOperand target (← pop)
  | .mov, target :: source :: _ => do writeOperand target (← readOperand source)
  | .lea, target :: source :: _ =>
    match source with
    | .mem base displacement => do writeOperand target (← address base displacement)
    | _ => throw .addressSource
  | .movzb, target :: source :: _ => do writeOperand target (← readOperand source).lowByte
  | .add, target :: source :: _ => do writeOperand target (← arithmetic (· + ·) target source)
  | .sub, target :: source :: _ => do writeOperand target (← arithmetic (· - ·) target source)
  | .cmp, target :: source :: _ => do let _ ← arithmetic (· - ·) target source
  | .imul, target :: source :: _ => multiply target source
  | .imul, [target] => do
    let _ ← readOperand target
    throw .missingOperand
  | .cqo, _ => extendSign
  | .idiv, source :: _ => do divide (← readOperand source)
  | .sete, target :: _ => setIf target fun f => f.zero
  | .setne, target :: _ => setIf target fun f => !f.zero
  | .setl, target :: _ => setIf target fun f => f.sign != f.overflow
  | .setle, target :: _ => setIf target fun f => f.zero || f.sign != f.overflow
  | .jmp, target :: _ => jump labels target
  | .je, operands => do
    if (← get).flags.zero then
      match operands with
      | target :: _ => jump labels target
      | [] => throw .missingOperand
  | .ret, _ => returnFromRoutine
  | .other name, _ => throw (.unhandled name)
  | _, _ => throw .missingOperand

end Exec

namespace Listing

def step (l : Listing) (s : State) : EStateM.Result Fault State Unit :=
  match l.fetch? s.pc with
  | none => .error ⟨.noInstruction, none⟩ s
  | some i =>
    match Exec.instr l.labels i.instr { s with pc := s.pc + 1, steps := s.steps + 1 } with
    | .ok () s' => .ok () s'
    | .error cause s' => .error ⟨cause, some i⟩ s'

end Listing

end StackLang
