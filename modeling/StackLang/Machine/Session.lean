import StackLang.Machine.Run

/-!
# Sessions

A machine can be driven by hand: run, stepped, looked at and changed. An action that fails leaves
the machine in the state the failure left, and the session goes on.
-/

namespace StackLang

structure Machine where
  listing : Listing
  config : MachineConfig := {}
  state : State := {}

inductive Action where
  | step
  | run (entry : Option String)
  | reset
  | readRegister (name : String)
  | writeRegister (name : String) (value : Int)
  | readMemory (address : Int)
  | writeMemory (address value : Int)
  | setPc (pc : Int)
  | setFlags (flags : Flags)
  | toSigned (value : Int)
deriving DecidableEq

inductive Reply where
  | none
  | result (r : RunResult)
  | number (n : Int)
deriving DecidableEq

namespace Machine

def withState (m : Machine) (s : State) : Machine :=
  { m with state := s }

def perform (m : Machine) : Action → Except Fault Reply × Machine
  | .step =>
    match m.listing.step m.state with
    | .ok () s => (.ok .none, m.withState s)
    | .error fault s => (.error fault, m.withState s)
  | .run entry =>
    match m.listing.run m.config entry m.state with
    | .ok r s => (.ok (.result r), m.withState s)
    | .error fault s => (.error fault, m.withState s)
  | .reset => (.ok .none, m.withState {})
  | .readRegister name =>
    match m.state.registers.read? (.ofName name) with
    | some w => (.ok (.number w.toNat), m)
    | none => (.error ⟨.unknownRegister name, none⟩, m)
  | .writeRegister name value =>
    (.ok .none, m.withState
      { m.state with registers := m.state.registers.write (.ofName name) (Word.ofInt value) })
  | .readMemory address => (.ok (.number (m.state.memory.read (Word.ofInt address)).toNat), m)
  | .writeMemory address value =>
    (.ok .none, m.withState
      { m.state with memory := m.state.memory.write (Word.ofInt address) (Word.ofInt value) })
  | .setPc pc => (.ok .none, m.withState { m.state with pc := pc })
  | .setFlags flags => (.ok .none, m.withState { m.state with flags := flags })
  | .toSigned value => (.ok (.number (Word.ofInt value).toInt), m)

/-- Performs actions in order, keeping each answer and the machine after it. -/
def performAll (m : Machine) : List Action → List (Except Fault Reply × Machine)
  | [] => []
  | a :: rest =>
    let (answer, m') := m.perform a
    (answer, m') :: performAll m' rest

end Machine

end StackLang
