import StackLang.Assembly.Reader
import StackLang.Assembly.Routine
import StackLang.Machine.Run
import StackLang.Program.Cursor
import StackLang.Text.ControlSequence
import StackLang.Text.Utf8
import StackLang.Token.Scan

/-!
# Failures

How the failure of any stage is shown to the caller. Most failures have a diagnostic; the others
have a wording of their own.
-/

namespace StackLang

inductive Failure where
  | report (d : Diagnostic)
  | invalidValue (message : String)
  | zeroDivision
  | unknownName (message : String)
  | outOfRange (message : String)
  | missingFile (message : String)
  | deniedFile (message : String)
  | directoryFile (message : String)
  | notDirectory (message : String)
  | longPath (message : String)
  | undecodable (fault : Text.Utf8Fault)
deriving DecidableEq

namespace Failure

def message : Failure → String
  | .report d => d.render
  | .invalidValue message => message
  | .zeroDivision => "integer division or modulo by zero"
  | .unknownName message => message
  | .outOfRange message => message
  | .missingFile message => message
  | .deniedFile message => message
  | .directoryFile message => message
  | .notDirectory message => message
  | .longPath message => message
  | .undecodable fault => fault.message

def ofReport : Except Text.TooManyDigits Diagnostic → Failure
  | .ok d => .report d
  | .error excess => .invalidValue excess.message

def exitCode : Failure → Nat
  | .report d => if d.category = .invariant then 3 else 1
  | .missingFile _ | .deniedFile _ | .directoryFile _ => 2
  | _ => 3

def notice (f : Failure) : String :=
  Text.plain <|
    match f with
    | .report _ => f.message
    | .missingFile _ | .deniedFile _ | .directoryFile _ => "Error: " ++ f.message
    | _ => "Internal error: " ++ f.message

end Failure

def OptionFault.failure (f : OptionFault) : Failure :=
  .invalidValue f.message

def ConfigFault.failure (f : ConfigFault) : Failure :=
  .invalidValue f.message

def ScanFault.failure (f : ScanFault) (filename source : String) : Failure :=
  .ofReport (f.diagnostic filename source)

def ParseFault.failure (f : ParseFault) (lines : List String) : Failure :=
  match f.diagnostic? lines with
  | some d => .report d
  | none => .invalidValue Text.overlongMessage

def GenerationFault.failure (f : GenerationFault) : Failure :=
  match f.diagnostic? with
  | some d => .report d
  | none => .zeroDivision

def ListingFault.failure (f : ListingFault) (filename : String) : Failure :=
  .ofReport (f.diagnostic filename)

def Fault.failure (f : Fault) (filename : String) : Failure :=
  match f.diagnostic? filename with
  | some d => .report d
  | none =>
    match f.cause with
    | .missingOperand | .noInstruction => .outOfRange f.plainMessage
    | _ => .unknownName f.plainMessage

/-- Tokens must be closed by the end of the input. -/
def Failure.missingEnd : Failure :=
  .invalidValue "token list must end with an EOF token"

/-- The failure of an outside tool, with what it printed as a hint. -/
def Diagnostic.toolchain (message : String) (returnCode : Option Int := none)
    (errorOutput : Option String := none) : Diagnostic :=
  let shown := (errorOutput.map fun s => Text.trim s.toList).filter fun s => !s.isEmpty
  { category := .toolchain returnCode
    message := message
    hint := shown.map String.ofList }

end StackLang
