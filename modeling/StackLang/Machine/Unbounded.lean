import StackLang.Machine.Bits
import StackLang.Machine.Session

/-!
# The machine on unbounded integers

Registers and memory hold integers of any size, and registers go by their names. That what is stored
has 64 bits is up to the masks, each at its place: no type sees to it.
-/

namespace StackLang.Unbounded

open Bits

/-! ## States -/

/-- Registers by name, in the order in which they came into being. -/
abbrev Registers := List (String × Int)

namespace Registers

def initial : Registers :=
  [("rax", 0), ("rcx", 0), ("rdi", 0), ("rdx", 0), ("rbp", 0), ("rsp", 0)]

def get? (r : Registers) (name : String) : Option Int :=
  (r.find? fun e => e.1 == name).map (·.2)

def set (r : Registers) (name : String) (value : Int) : Registers :=
  if r.any fun e => e.1 == name then r.map fun e => if e.1 == name then (name, value) else e
  else r ++ [(name, value)]

end Registers

structure State where
  registers : Registers := Registers.initial
  memory : Std.TreeMap Int Int := {}
  flags : Flags := {}
  pc : Int := 0
  steps : Nat := 0
  halted : Bool := false

abbrev Exec := EStateM FaultCause State

namespace Exec

/-! ## Registers and memory -/

def fetch (name : String) : Exec Int := do
  match (← get).registers.get? name with
  | some value => return value
  | none => throw (.unknownRegister name)

/-- Stores a number as it is. -/
def store (name : String) (value : Int) : Exec Unit :=
  modify fun s => { s with registers := s.registers.set name value }

def readRegister (name : String) : Exec Int := do
  if name = "al" then return Bits.and (← fetch "rax") lowByte
  else fetch name

def writeRegister (name : String) (value : Int) : Exec Unit := do
  if name = "al" then
    let kept := Bits.and (← fetch "rax") (~~~lowByte)
    store "rax" (Bits.or (Bits.and kept mask64) (Bits.and value lowByte))
  else store name (Bits.and value mask64)

def readMemory (address : Int) : Exec Int := do
  return (← get).memory.getD (Bits.and address mask64) 0

def writeMemory (address value : Int) : Exec Unit :=
  modify fun s =>
    { s with memory := s.memory.insert (Bits.and address mask64) (Bits.and value mask64) }

def address (base : Register) (displacement : Int) : Exec Int := do
  return Bits.and ((← readRegister base.name) + displacement) mask64

def readOperand : Operand → Exec Int
  | .reg r => readRegister r.name
  | .imm value => return Bits.and value mask64
  | .mem base displacement => do readMemory (← address base displacement)
  | o@(.label _) => throw (.unreadable o)

def writeOperand (o : Operand) (value : Int) : Exec Unit :=
  match o with
  | .reg r => writeRegister r.name value
  | .mem base displacement => do writeMemory (← address base displacement) value
  | .imm _ | .label _ => throw (.unwritable o)

def push (value : Int) : Exec Unit := do
  store "rsp" (Bits.and ((← fetch "rsp") - 8) mask64)
  writeMemory (← fetch "rsp") value

def pop : Exec Int := do
  let value ← readMemory (← fetch "rsp")
  store "rsp" (Bits.and ((← fetch "rsp") + 8) mask64)
  return value

/-! ## Arithmetic -/

def setFlags (result : Int) (overflow : Bool) : Exec Unit :=
  let pattern := Bits.and result mask64
  modify fun s => { s with flags := ⟨pattern == 0, Bits.and pattern signBit != 0, overflow⟩ }

def arithmetic (operation : Int → Int → Int) (left right : Operand) : Exec Int := do
  let x ← readOperand left
  let y ← readOperand right
  let exact := operation (toSigned x) (toSigned y)
  setFlags exact (toSigned exact != exact)
  return exact

def multiply (left right : Operand) : Exec Unit := do
  let x ← readOperand left
  let y ← readOperand right
  let product := toSigned x * toSigned y
  writeOperand left product
  modify fun s => { s with flags := { s.flags with overflow := toSigned product != product } }

def extendSign : Exec Unit := do
  store "rdx" (if Bits.and (← fetch "rax") signBit ≠ 0 then mask64 else 0)

def divide (value : Int) : Exec Unit := do
  let divisor := toSigned value
  if divisor = 0 then throw .divisionByZero
  let high ← fetch "rdx"
  let low ← fetch "rax"
  let dividend := joined (toSigned high) low
  let quotient := quotient dividend divisor
  if toSigned quotient ≠ quotient then throw .quotientRange
  store "rax" (Bits.and quotient mask64)
  store "rdx" (Bits.and (remainder dividend divisor) mask64)

/-! ## Control -/

def haltAddress : Int := 0xDEADBEEF0000

def jump (labels : LabelTable) (target : Operand) : Exec Unit :=
  match target with
  | .label name =>
    match labels.find? name with
    | some index => modify fun s => { s with pc := index }
    | none => throw (.unknownLabel name)
  | _ => throw .noTarget

def returnFromRoutine : Exec Unit := do
  let address ← pop
  if address = haltAddress then modify fun s => { s with halted := true }
  else throw (.returnAddress address)

def setIf (o : Operand) (condition : Flags → Bool) : Exec Unit := do
  writeOperand o (if condition (← get).flags then 1 else 0)

def instr (labels : LabelTable) (i : Instr) : Exec Unit :=
  match i.mnemonic, i.operands with
  | .push, source :: _ => do push (← readOperand source)
  | .pop, target :: _ => do writeOperand target (← pop)
  | .mov, target :: source :: _ => do writeOperand target (← readOperand source)
  | .lea, target :: source :: _ =>
    match source with
    | .mem base displacement => do writeOperand target (← address base displacement)
    | _ => throw .addressSource
  | .movzb, target :: source :: _ => do
    writeOperand target (Bits.and (← readOperand source) lowByte)
  | .add, target :: source :: _ => do writeOperand target (← arithmetic (· + ·) target source)
  | .sub, target :: source :: _ => do writeOperand target (← arithmetic (· - ·) target source)
  | .cmp, target :: source :: _ => do let _ ← arithmetic (· - ·) target source
  | .imul, target :: source :: _ => multiply target source
  | .imul, [target] => do
    let _ ← readOperand target
    throw .missingOperand
  | .cqo, _ => extendSign
  | .idiv, source :: _ => do divide (← readOperand source)
  | .sete, target :: _ => setIf target fun f => f.zero
  | .setne, target :: _ => setIf target fun f => !f.zero
  | .setl, target :: _ => setIf target fun f => f.sign != f.overflow
  | .setle, target :: _ => setIf target fun f => f.zero || f.sign != f.overflow
  | .jmp, target :: _ => jump labels target
  | .je, operands => do
    if (← get).flags.zero then
      match operands with
      | target :: _ => jump labels target
      | [] => throw .missingOperand
  | .ret, _ => returnFromRoutine
  | .other name, _ => throw (.unhandled name)
  | _, _ => throw .missingOperand

/-- The start of a run. The stack pointer gets its mask from the first push. -/
def start (stackTop pc : Int) : Exec Unit := do
  set ({} : State)
  store "rsp" stackTop
  push haltAddress
  modify fun s => { s with pc := pc }

def result : Exec RunResult := do
  let value := toSigned (← fetch "rax")
  return ⟨value, (Bits.and value lowByte).toNat, (← get).steps⟩

end Exec

/-! ## Runs and sessions -/

abbrev Act := EStateM Fault State

/-- An execution whose faults name the instruction, if there is one. -/
def during {σ α : Type} (i : Option PlacedInstr) (x : EStateM FaultCause σ α) :
    EStateM Fault σ α := fun s =>
  match x s with
  | .ok a s' => .ok a s'
  | .error cause s' => .error ⟨cause, i⟩ s'

def step (l : Listing) : Act Unit := do
  match l.fetch? (← get).pc with
  | none => throw ⟨.noInstruction, none⟩
  | some i =>
    modify fun s => { s with pc := s.pc + 1, steps := s.steps + 1 }
    during (some i) (Exec.instr l.labels i.instr)

def runFor (l : Listing) (entry : String) (limit : Nat) : (remaining : Nat) → Act Unit
  | 0 => do
    if (← get).halted then return ()
    else throw ⟨.stepLimit limit, none⟩
  | remaining + 1 => do
    if (← get).halted then return ()
    else if l.instructions.size ≤ (← get).pc then throw ⟨.ranPastEnd entry, none⟩
    else
      step l
      runFor l entry limit remaining

def run (l : Listing) (config : MachineConfig) (entry : Option String) : Act RunResult := do
  let name := l.startLabel entry
  match l.labels.find? name with
  | none => throw ⟨.undefinedEntry name, none⟩
  | some pc =>
    during none (Exec.start config.stackTop pc)
    runFor l name config.maxSteps config.maxSteps
    during none Exec.result

structure Machine where
  listing : Listing
  config : MachineConfig := {}
  state : State := {}

namespace Machine

def act (m : Machine) : Action → Act Reply
  | .step => do
    step m.listing
    return .none
  | .run entry => do return .result (← run m.listing m.config entry)
  | .reset => do
    set ({} : State)
    return .none
  | .readRegister name => do return .number (← during none (Exec.readRegister name))
  | .writeRegister name value => do
    during none (Exec.writeRegister name value)
    return .none
  | .readMemory address => do return .number (← during none (Exec.readMemory address))
  | .writeMemory address value => do
    during none (Exec.writeMemory address value)
    return .none
  | .setPc pc => do
    modify fun s => { s with pc := pc }
    return .none
  | .setFlags flags => do
    modify fun s => { s with flags := flags }
    return .none
  | .toSigned value => return .number (toSigned value)

def perform (m : Machine) (a : Action) : Except Fault Reply × Machine :=
  match m.act a m.state with
  | .ok reply s => (.ok reply, { m with state := s })
  | .error fault s => (.error fault, { m with state := s })

def performAll (m : Machine) : List Action → List (Except Fault Reply × Machine)
  | [] => []
  | a :: rest => m.perform a :: performAll (m.perform a).2 rest

end Machine

end StackLang.Unbounded
