import StackLang.Assembly.Listing
import StackLang.Diagnostic
import StackLang.Machine.State
import StackLang.Text.Quoted

/-!
# Faults

What can stop a machine other than the end of the routine.
-/

namespace StackLang

inductive FaultCause where
  | unreadable (operand : Operand)
  | unwritable (operand : Operand)
  | addressSource
  | unhandled (mnemonic : String)
  | divisionByZero
  | quotientRange
  | returnAddress (address : Int)
  | unknownRegister (name : String)
  | unknownLabel (name : String)
  | noTarget
  | missingOperand
  | noInstruction
  | undefinedEntry (name : String)
  | stepLimit (limit : Nat)
  | ranPastEnd (entry : String)
deriving DecidableEq

structure Fault where
  cause : FaultCause
  instruction : Option PlacedInstr := none
deriving DecidableEq

namespace Fault

/-- A number in base sixteen, with capital digits. -/
def hexText (n : Int) : String :=
  (if n < 0 then "-" else "") ++ String.ofList ((Nat.toDigits 16 n.natAbs).map Char.toUpper)

/-- The report of a fault. A name that is not in a table, or a place that is not in a list, has
none. -/
def diagnostic? (f : Fault) (filename : String) : Option Diagnostic :=
  let located (category : Category) (message : String) : Option Diagnostic := some
    { category := category
      message := message
      location := f.instruction.map fun i => ⟨filename, i.line, 1, 0⟩
      sourceLine := f.instruction.map (·.text) }
  match f.cause with
  | .unreadable operand => located .execution s!"cannot read label operand '{operand.text}'"
  | .unwritable operand => located .execution s!"cannot write to operand '{operand.text}'"
  | .addressSource => located .execution "lea needs a memory source operand"
  | .unhandled mnemonic => located .execution s!"no handler for '{mnemonic}'"
  | .divisionByZero => located .division "division by zero"
  | .quotientRange => located .division "quotient does not fit 64 bits"
  | .returnAddress address =>
    located .execution s!"return to unknown address 0x{hexText address}"
  | .undefinedEntry name => some (.undefinedLabel name)
  | .stepLimit limit => some (.stepLimit limit)
  | .ranPastEnd entry => some
      { category := .execution
        message := s!"execution ran past the end of the listing from '{entry}'" }
  | .unknownRegister _ | .unknownLabel _ | .noTarget | .missingOperand | .noInstruction => none

def plainMessage (f : Fault) : String :=
  match f.cause with
  | .unknownRegister name | .unknownLabel name => Text.quote name
  | .noTarget => "None"
  | .missingOperand => "tuple index out of range"
  | .noInstruction => "list index out of range"
  | _ => ""

end Fault

end StackLang
