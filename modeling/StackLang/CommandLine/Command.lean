import StackLang.CommandLine.Help
import StackLang.CommandLine.Native
import StackLang.CommandLine.Options

/-!
# Commands

A command is a function of its arguments, the files and the tools of the system: it yields an exit
code, what goes to the two output streams, and the files afterwards.
-/

namespace StackLang.CommandLine

structure Command where
  source : Option String := none
  file : Option Path := none
  output : Option Path := none
  tokens : Bool := false
  ast : Bool := false
  run : Bool := false
  native : Bool := false
  entry : String := "main"
  comments : Bool := false
  verbose : Bool := false
deriving DecidableEq

inductive Invocation where
  | help
  | version
  | command (c : Command)
deriving DecidableEq

/-! ## From arguments to a command -/

/-- A letter or low line, then letters, digits and low lines. One line feed may end the name. -/
def isSymbolName (name : String) : Bool :=
  match name.toList with
  | [] => false
  | c :: cs =>
    let body := if cs.getLast? = some '\n' then cs.dropLast else cs
    Scan.isLetter c && body.all Scan.isNamePart

def valueFault? (files : FileTree) (o : Opt) (value : String) : Option UsageFault :=
  match o with
  | .file =>
    if FileTree.holdsNull value then some .nullCharacter
    else match files.lookupRaw value with
    | .found _ .directory => some (.invalidValue o s!"File {Text.quote value} is a directory.")
    | .found _ _ => none
    | _ => some (.invalidValue o s!"File {Text.quote value} does not exist.")
  | .output =>
    if FileTree.holdsNull value then some .nullCharacter
    else match files.lookupRaw value with
    | .found _ .directory => some (.invalidValue o s!"File {Text.quote value} is a directory.")
    | _ => none
  | .entry =>
    if isSymbolName value then none
    else some (.invalidValue o s!"'{value}' is not a valid symbol name")
  | _ => none

/-- The first fault among the values, in the order the options were given. -/
def firstValueFault? (files : FileTree) (r : Reading) : Option UsageFault :=
  r.distinct.findSome? fun o => (r.value? o).bind (valueFault? files o)

def toCommand (r : Reading) : Command where
  source := r.positional.head?
  file := (r.value? .file).map Path.ofString
  output := (r.value? .output).map Path.ofString
  tokens := r.has .tokens
  ast := r.has .ast
  run := r.has .run
  native := r.has .native
  entry := (r.value? .entry).getD "main"
  comments := r.has .comments
  verbose := r.has .verbose

def Command.fault? (c : Command) : Option UsageFault :=
  if c.source.isNone = c.file.isNone then some (.conflict "provide either SOURCE or -f/--file")
  else if c.run && c.native then some (.conflict "--run and --native are mutually exclusive")
  else if c.native && c.entry != "main" then
    some (.conflict "--native links against the C runtime, which calls 'main'")
  else none

/-- Reads the arguments. The faults of their form come first, then help and version, then the
values, then arguments too many, then what does not go together. -/
def invocation (files : FileTree) (arguments : List String) : Except UsageFault Invocation := do
  let r ← ({} : Reading).readAll arguments
  match r.distinct.find? fun o => o == .help || o == .version with
  | some .help => return .help
  | some _ => return .version
  | none =>
    if let some fault := firstValueFault? files r then throw fault
    let extra := r.positional.drop 1
    if !extra.isEmpty then throw (.extraArguments extra)
    let c := toCommand r
    if let some fault := c.fault? then throw fault
    return .command c

/-! ## Carrying out a command -/

structure Outcome where
  exitCode : Nat := 0
  stdout : String := ""
  stderr : String := ""
  files : FileTree
deriving DecidableEq

def logText (c : Command) (events : List Event) : String :=
  if c.verbose then String.join (events.map fun e => "DEBUG: " ++ e.text ++ "\n") else ""

def Command.remark (c : Command) (text : String) : String :=
  if c.verbose then Text.plain text ++ "\n" else ""

def failed (files : FileTree) (log : String) (f : Failure) : Outcome where
  exitCode := f.exitCode
  stderr := log ++ f.notice ++ "\n"
  files := files

def Command.text (c : Command) (files : FileTree) : Except Failure (String × String) :=
  match c.file with
  | some path => (files.readText path).map fun text => (text, path.text)
  | none => .ok (c.source.getD "", "<input>")

def printTokens (files : FileTree) (text filename : String) : Outcome :=
  match tokensOf text filename with
  | .error f => failed files "" f
  | .ok tokens =>
    { stdout := String.join (tokens.map fun t => t.dump ++ "\n")
      files := files }

def Command.finish (c : Command) (tools : Tools) (files : FileTree)
    (log stdout assembly : String) : Outcome :=
  if c.run then
    match runListing assembly (some c.entry) with
    | .error f => failed files log f
    | .ok r =>
      { exitCode := r.exitStatus
        stdout := stdout
        stderr := log ++
          logText c [.halted r.steps r.returnValue, .exited r.exitStatus]
        files := files }
  else if c.native then
    let (events, result) := tools.compileAndRun assembly
    let log := log ++ logText c events
    match result with
    | .error f => failed files log f
    | .ok status =>
      { exitCode := status
        stdout := stdout
        stderr := log ++ logText c [.exited status]
        files := files }
  else { stdout := stdout, stderr := log, files := files }

/-- Puts the assembly where it belongs: in the output file, or on standard output unless the
program is to be run. -/
def Command.deliver (c : Command) (tools : Tools) (files : FileTree) (log assembly : String) :
    Outcome :=
  match c.output with
  | some path =>
    match files.writeText path assembly with
    | .error f => failed files log f
    | .ok files =>
      let wrote := c.remark s!"Wrote {assembly.length} bytes to {path.text}"
      c.finish tools files (log ++ wrote) "" assembly
  | none => c.finish tools files log (if c.run || c.native then "" else assembly) assembly

def Command.execute (c : Command) (tools : Tools) (files : FileTree) : Outcome :=
  match c.text files with
  | .error f => failed files "" f
  | .ok (text, filename) =>
    if c.tokens then printTokens files text filename
    else
      let (events, result) :=
        compileWithEvents text filename { entry := c.entry, comments := c.comments }
      let log := logText c events
      match result with
      | .error f => failed files log f
      | .ok compilation =>
        let p := compilation.program
        let log := log ++ c.remark
          (s!"Compiled {filename}: {compilation.tokens.length} tokens, " ++
            s!"{p.statements.length} statements, {p.slots.size} variables")
        if c.ast then { stdout := p.tree ++ "\n", stderr := log, files := files }
        else c.deliver tools files log compilation.assembly

def perform (tools : Tools) (files : FileTree) (arguments : List String) : Outcome :=
  match invocation files arguments with
  | .error fault => { exitCode := 2, stderr := fault.text, files := files }
  | .ok .help => { stdout := helpText, files := files }
  | .ok .version => { stdout := versionText, files := files }
  | .ok (.command c) => c.execute tools files

end StackLang.CommandLine
