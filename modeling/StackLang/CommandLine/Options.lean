import StackLang.FileTree
import StackLang.Text.Similarity

/-!
# Options

How arguments are read. Options may stand before or after the program text; a long option takes
its value after `=` or from the next argument, short options can be joined, and `--` ends the
options.
-/

namespace StackLang.CommandLine

inductive Opt where
  | file
  | output
  | tokens
  | ast
  | run
  | native
  | entry
  | comments
  | verbose
  | version
  | help
deriving DecidableEq

namespace Opt

def all : List Opt :=
  [.file, .output, .tokens, .ast, .run, .native, .entry, .comments, .verbose, .version, .help]

def short? : Opt → Option Char
  | .file => some 'f'
  | .output => some 'o'
  | .verbose => some 'v'
  | _ => none

def long : Opt → String
  | .file => "--file"
  | .output => "--output"
  | .tokens => "--tokens"
  | .ast => "--ast"
  | .run => "--run"
  | .native => "--native"
  | .entry => "--entry"
  | .comments => "--comments"
  | .verbose => "--verbose"
  | .version => "--version"
  | .help => "--help"

def takesValue : Opt → Bool
  | .file | .output | .entry => true
  | _ => false

def ofShort? (c : Char) : Option Opt :=
  all.find? fun o => o.short? == some c

def ofLong? (name : String) : Option Opt :=
  all.find? fun o => o.long == name

def label (o : Opt) : String :=
  match o.short? with
  | some c => "'-" ++ String.singleton c ++ "' / '" ++ o.long ++ "'"
  | none => "'" ++ o.long ++ "'"

end Opt

inductive UsageFault where
  | noSuchOption (name : String) (close : List String)
  | valueMissing (name : String)
  | valueUnwanted (name : String)
  | invalidValue (option : Opt) (reason : String)
  /-- No path can hold a null character. -/
  | nullCharacter
  | extraArguments (arguments : List String)
  | conflict (reason : String)
deriving DecidableEq

namespace UsageFault

def usage : String :=
  "Usage: stackcc [OPTIONS] [SOURCE]\nTry 'stackcc --help' for help.\n\n"

def reason : UsageFault → String
  | .noSuchOption name close =>
    let words := String.intercalate ", " close
    match close with
    | [] => s!"No such option: {name}"
    | [_] => s!"No such option: {name} Did you mean {words}?"
    | _ => s!"No such option: {name} (Possible options: {words})"
  | .valueMissing name => s!"Option '{name}' requires an argument."
  | .valueUnwanted name => s!"Option '{name}' does not take a value."
  | .invalidValue option reason => s!"Invalid value for {option.label}: {reason}"
  | .nullCharacter => "embedded null byte"
  | .extraArguments arguments =>
    let noun := if arguments.length = 1 then "argument" else "arguments"
    let shown := String.intercalate " " arguments
    s!"Got unexpected extra {noun} ({shown})"
  | .conflict reason => reason

/-- What the user is told. The usage is left out if only a value is missing or too many. -/
def text (f : UsageFault) : String :=
  let line := Text.plain ("Error: " ++ f.reason) ++ "\n"
  match f with
  | .valueMissing _ | .valueUnwanted _ => line
  | _ => usage ++ line

end UsageFault

structure Reading where
  /-- The options in the order given, with their values; the value of a flag is empty. -/
  given : List (Opt × String) := []
  positional : List String := []
  /-- An option whose value is the next argument, and the name it was given by. -/
  awaiting : Option (Opt × String) := none
deriving DecidableEq

namespace Reading

def give (r : Reading) (o : Opt) (value : String := "") : Reading :=
  { r with given := r.given ++ [(o, value)], awaiting := none }

def await (r : Reading) (o : Opt) (name : String) : Reading :=
  { r with awaiting := some (o, name) }

/-- Short options joined into one argument. The first that takes a value takes all that is left
of the argument. -/
def readShort (r : Reading) : List Char → Except UsageFault Reading
  | [] => .ok r
  | c :: cs =>
    let name := "-" ++ String.singleton c
    match Opt.ofShort? c with
    | none => .error (.noSuchOption name [])
    | some o =>
      if !o.takesValue then readShort (r.give o) cs
      else if cs.isEmpty then .ok (r.await o name)
      else .ok (r.give o (String.ofList cs))

def readOption (r : Reading) (argument : String) : Except UsageFault Reading :=
  let cs := argument.toList
  let name := String.ofList (cs.takeWhile (· != '='))
  let value? := if cs.contains '=' then some (String.ofList ((cs.dropWhile (· != '=')).drop 1))
    else none
  match Opt.ofLong? name, value? with
  | some o, some value =>
    if o.takesValue then .ok (r.give o value) else .error (.valueUnwanted name)
  | some o, none => if o.takesValue then .ok (r.await o name) else .ok (r.give o)
  | none, _ =>
    match cs with
    | '-' :: '-' :: _ => .error (.noSuchOption name (Text.closeWords name (Opt.all.map Opt.long)))
    | _ => r.readShort (cs.drop 1)

def isOption (argument : String) : Bool :=
  match argument.toList with
  | '-' :: _ :: _ => true
  | _ => false

def readAll (r : Reading) : List String → Except UsageFault Reading
  | [] =>
    match r.awaiting with
    | some (_, name) => .error (.valueMissing name)
    | none => .ok r
  | argument :: rest =>
    match r.awaiting with
    | some (o, _) => readAll (r.give o argument) rest
    | none =>
      if argument == "--" then .ok { r with positional := r.positional ++ rest }
      else if isOption argument then
        match r.readOption argument with
        | .error fault => .error fault
        | .ok r => readAll r rest
      else readAll { r with positional := r.positional ++ [argument] } rest

def has (r : Reading) (o : Opt) : Bool :=
  r.given.any fun g => g.1 == o

/-- The value of an option: the last one given counts. -/
def value? (r : Reading) (o : Opt) : Option String :=
  (r.given.filter fun g => g.1 == o).getLast?.map (·.2)

/-- The options given, each once, by first appearance. -/
def distinct (r : Reading) : List Opt :=
  (r.given.map (·.1)).eraseDups

end Reading

end StackLang.CommandLine
