import StackLang.Machine.Step

/-!
# Runs

A run starts at a label with the halting address on top of the stack, and goes on until that
address is returned to, a fault comes up, or the step limit is reached.
-/

namespace StackLang

structure MachineConfig where
  maxSteps : Nat := 1000000
  /-- The initial stack pointer. -/
  stackTop : Int := 0x7FFFF000
  maxSteps_pos : 0 < maxSteps := by decide
  stackTop_aligned : stackTop % 16 = 0 := by decide

inductive ConfigFault where
  | maxSteps
  | stackTop
deriving DecidableEq

def ConfigFault.message : ConfigFault → String
  | .maxSteps => "max_steps must be positive"
  | .stackTop => "stack_top must be 16-byte aligned"

/-- A configuration, if the step limit is positive and the stack aligned to 16 bytes. -/
def MachineConfig.ofSettings (maxSteps stackTop : Int) : Except ConfigFault MachineConfig :=
  if hs : 0 < maxSteps then
    if ht : stackTop % 16 = 0 then
      .ok ⟨maxSteps.toNat, stackTop, by omega, ht⟩
    else .error .stackTop
  else .error .maxSteps

structure RunResult where
  /-- `rax` as a signed number. -/
  returnValue : Int
  /-- The low byte of the return value. -/
  exitStatus : Nat
  steps : Nat
deriving DecidableEq

def State.result (s : State) : RunResult :=
  ⟨s.registers.rax.toInt, s.registers.rax.lowByte.toNat, s.steps⟩

namespace Listing

/-- The label to start at: the one asked for, else the entry of the listing, else `main`. An empty
name counts as none. -/
def startLabel (l : Listing) (entry : Option String) : String :=
  let given (name : Option String) := name.filter fun n => !n.isEmpty
  ((given entry).or (given l.entry)).getD "main"

def startState (config : MachineConfig) (pc : Int) : State :=
  let top := Word.ofInt config.stackTop - 8
  { registers := { rsp := top }
    memory := ({} : Memory).write top Exec.haltAddress
    pc := pc }

/-- Runs for at most `remaining` steps; `limit` and `entry` are for the reports. -/
def runFor (l : Listing) (entry : String) (limit : Nat) :
    (remaining : Nat) → State → EStateM.Result Fault State Unit
  | 0, s => if s.halted then .ok () s else .error ⟨.stepLimit limit, none⟩ s
  | remaining + 1, s =>
    if s.halted then .ok () s
    else if l.instructions.size ≤ s.pc then .error ⟨.ranPastEnd entry, none⟩ s
    else
      match l.step s with
      | .ok () s' => runFor l entry limit remaining s'
      | .error fault s' => .error fault s'

/-- Runs the routine at a label until it returns. A label that is not defined leaves the state as
it is. -/
def run (l : Listing) (config : MachineConfig) (entry : Option String) (s : State) :
    EStateM.Result Fault State RunResult :=
  let name := l.startLabel entry
  match l.labels.find? name with
  | none => .error ⟨.undefinedEntry name, none⟩ s
  | some pc =>
    match l.runFor name config.maxSteps config.maxSteps (startState config pc) with
    | .ok () s' => .ok s'.result s'
    | .error fault s' => .error fault s'

end Listing

end StackLang
