/-!
# Diagnostics

Every stage reports a problem as a `Diagnostic`: what went wrong, where, the line it happened on
and a hint. `Diagnostic.render` is the one place that turns it into text:

    file:line:column: error: message
        the line in question
        ^^^^
    hint: a suggestion
-/

namespace StackLang

/-- A place in a text. Lines and columns count from 1, offsets from 0; all count characters. -/
structure Location where
  filename : String
  line : Int
  column : Int
  offset : Int := 0
deriving DecidableEq

namespace Location

def text (l : Location) : String :=
  s!"{l.filename}:{l.line}:{l.column}"

def tag (l : Location) (name : String) : String :=
  s!"{name}@{l.line}:{l.column}"

end Location

/-- What kind of problem a diagnostic reports, with the facts that belong to that kind. -/
inductive Category where
  | general
  | compilation
  | lexical
  | invalidCharacter (char : String)
  | unexpected (expected found : String)
  | assignmentTarget (found : String)
  | generation
  | invariant
  | execution
  | assembly
  | unsupportedInstruction (mnemonic : String)
  | undefinedLabel (label : String)
  | stepLimit (limit : Int)
  | division
  | toolchain (returnCode : Option Int)
deriving DecidableEq

structure Diagnostic where
  category : Category
  message : String
  location : Option Location := none
  hint : Option String := none
  sourceLine : Option String := none
  /-- Number of columns underlined. -/
  span : Nat := 1
deriving DecidableEq

namespace Diagnostic

/-- At least one column is always underlined. -/
def underlining (d : Diagnostic) (span : Int) : Diagnostic :=
  { d with span := (max span 1).toNat }

/-- The line of carets under `line`, starting at `column`. Tabs before the column are kept, so the
carets stay in place however wide a tab is shown, and the carets stop at the end of the line. -/
def caretLine (line : List Char) (column : Nat) (span : Nat) : List Char :=
  let before := line.take (column - 1)
  let padding := before.map fun c => if c = '\t' then '\t' else ' '
  padding ++ List.replicate (max 1 (min span (line.length - before.length))) '^'

/-- The quoted line and its carets, when the diagnostic has a line and a column in it. -/
def excerpt (d : Diagnostic) : List String :=
  match d.sourceLine, d.location with
  | some line, some place =>
    if 1 ≤ place.column then
      ["    " ++ line,
        "    " ++ String.ofList (caretLine line.toList place.column.toNat d.span)]
    else []
  | _, _ => []

def headline (d : Diagnostic) : String :=
  match d.location with
  | some place => s!"{place.text}: error: {d.message}"
  | none => s!"error: {d.message}"

def hintLine (d : Diagnostic) : List String :=
  match d.hint with
  | some hint => if hint.isEmpty then [] else ["hint: " ++ hint]
  | none => []

def render (d : Diagnostic) : String :=
  String.intercalate "\n" (d.headline :: d.excerpt ++ d.hintLine)

/-! ## The diagnostics of each kind -/

def invalidCharacter (char : String) (location : Option Location := none)
    (sourceLine : Option String := none) (hint : Option String := none) : Diagnostic where
  category := .invalidCharacter char
  message := s!"invalid character '{char}'"
  location := location
  hint := hint
  sourceLine := sourceLine

/-- A token the grammar does not allow at its place. A `message` that is given and not empty
replaces the usual wording. -/
def unexpected (expected found : String) (location : Option Location := none)
    (sourceLine : Option String := none) (message : Option String := none)
    (hint : Option String := none) (span : Int := 1) : Diagnostic :=
  let wording :=
    match message with
    | some text => if text.isEmpty then s!"expected {expected}, found '{found}'" else text
    | none => s!"expected {expected}, found '{found}'"
  underlining
    { category := .unexpected expected found
      message := wording
      location := location
      hint := hint
      sourceLine := sourceLine }
    span

def assignmentTarget (found : String) (location : Option Location := none)
    (sourceLine : Option String := none) : Diagnostic where
  category := .assignmentTarget found
  message := "invalid assignment target"
  location := location
  hint := some "only a variable can appear on the left of '='"
  sourceLine := sourceLine

def invariant (message : String) (location : Option Location := none) : Diagnostic where
  category := .invariant
  message := s!"internal compiler error: {message}"
  location := location

def assembly (message : String) (location : Option Location) (sourceLine : Option String) :
    Diagnostic where
  category := .assembly
  message := message
  location := location
  sourceLine := sourceLine

/-- An instruction outside the supported set, underlined in full. -/
def unsupportedInstruction (mnemonic : String) (location : Option Location)
    (sourceLine : Option String) : Diagnostic :=
  underlining
    { category := .unsupportedInstruction mnemonic
      message := s!"unsupported instruction '{mnemonic}'"
      location := location
      sourceLine := sourceLine }
    mnemonic.length

def undefinedLabel (label : String) (location : Option Location := none)
    (sourceLine : Option String := none) : Diagnostic where
  category := .undefinedLabel label
  message := s!"undefined label '{label}'"
  location := location
  sourceLine := sourceLine

def stepLimit (limit : Int) : Diagnostic where
  category := .stepLimit limit
  message := s!"program did not halt within {limit} steps"
  hint := some "raise EmulatorConfig.max_steps if the program is expected to run longer"

end Diagnostic

end StackLang
