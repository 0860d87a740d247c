import StackLang.Assembly.Generate
import StackLang.Failure
import StackLang.Program.Parse

/-!
# Compiling

From program text to a routine: scanning, reading, generating. The first stage that fails ends
the compilation.
-/

namespace StackLang

def tokensOf (source : String) (filename : String := "<input>") : Except Failure (List Token) :=
  let s := scan source filename
  match s.fault with
  | none => .ok s.tokens
  | some fault => .error (fault.failure filename source)

/-- Reads tokens by `parse`; faults quote from the lines given. -/
def readTokens {α : Type} (tokens : List Token) (lines : List String)
    (parse : Cursor → EStateM.Result ParseFault Cursor α) : Except Failure α :=
  match Cursor.ofTokens? tokens with
  | none => .error .missingEnd
  | some cursor =>
    match parse cursor with
    | .ok a _ => .ok a
    | .error fault _ => .error (fault.failure lines)

def parseSource (source : String) (filename : String := "<input>") : Except Failure Program := do
  let tokens ← tokensOf source filename
  readTokens tokens (Text.sourceLines source) (·.parseProgram filename)

def parseExpression (source : String) (filename : String := "<input>") : Except Failure Expr := do
  let tokens ← tokensOf source filename
  readTokens tokens (Text.sourceLines source) (·.parseExpression)

def generate (p : Program) (o : RoutineOptions := {}) : Except Failure Routine :=
  (p.routine o).mapError GenerationFault.failure

structure Compilation where
  filename : String
  tokens : List Token
  program : Program
  routine : Routine

namespace Compilation

def assembly (c : Compilation) : String :=
  c.routine.text

end Compilation

inductive Event where
  | scanned (filename : String) (tokens : Nat)
  | parsed (filename : String) (statements slots : Nat)
  | generated (lines labels : Nat) (frame : Int)
  | assembled (filename : String) (lines : Nat)
  | halted (steps : Nat) (value : Int)
  | exited (status : Nat)
  | running (command : String)
deriving DecidableEq

def Event.text : Event → String
  | .scanned filename tokens => s!"{filename}: {tokens} tokens"
  | .parsed filename statements slots =>
    s!"{filename}: {statements} statements, {slots} variables"
  | .generated lines labels frame =>
    s!"generated {lines} lines, {labels} labels, frame {frame} bytes"
  | .assembled filename lines => s!"{filename}: {lines} assembly lines"
  | .halted steps value => s!"halted after {steps} steps with rax={value}"
  | .exited status => s!"program exited with status {status}"
  | .running command => s!"running {command}"

def compileWithEvents (source filename : String) (o : RoutineOptions) :
    List Event × Except Failure Compilation :=
  match tokensOf source filename with
  | .error f => ([], .error f)
  | .ok tokens =>
    let scanned := Event.scanned filename tokens.length
    match readTokens tokens (Text.sourceLines source) (·.parseProgram filename) with
    | .error f => ([scanned], .error f)
    | .ok program =>
      let parsed := Event.parsed filename program.statements.length program.slots.size
      match generate program o with
      | .error f => ([scanned, parsed], .error f)
      | .ok routine =>
        let generated := Event.generated routine.code.length routine.labels routine.frame
        let assembled := Event.assembled filename (routine.text.toList.count '\n')
        ([scanned, parsed, generated, assembled], .ok ⟨filename, tokens, program, routine⟩)

/-- Compiles a program text. Options are checked first. -/
def compile (source : String) (filename : String := "<input>") (o : RoutineOptions := {}) :
    Except Failure Compilation :=
  match o.fault? with
  | some fault => .error fault.failure
  | none => (compileWithEvents source filename o).2

def runListing (text : String) (entry : Option String := none) (config : MachineConfig := {}) :
    Except Failure RunResult :=
  match Listing.read text with
  | .error fault => .error (fault.failure "<listing>")
  | .ok l =>
    match l.run config entry {} with
    | .ok r _ => .ok r
    | .error fault _ => .error (fault.failure l.filename)

end StackLang
