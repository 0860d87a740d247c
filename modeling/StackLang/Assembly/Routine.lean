import StackLang.Assembly.Instr
import StackLang.Diagnostic
import StackLang.Expr
import StackLang.Slot

/-!
# Routines

A compiled program is one routine: a list of lines, of which each remembers how many values the
evaluation stack holds when the routine gets there.
-/

namespace StackLang

inductive Line where
  | intelDirective
  | global (name : String)
  | label (name : String)
  | comment (text : String)
  | instr (i : Instr)
deriving DecidableEq

namespace Line

def indent : String := "        "

/-- The mnemonic takes up at least eight columns if operands follow. -/
def instrText (i : Instr) : String :=
  if i.operands.isEmpty then i.mnemonic.name
  else
    let name := i.mnemonic.name
    name ++ String.ofList (List.replicate (8 - name.length) ' ') ++ i.operandText

def text : Line → String
  | .intelDirective => ".intel_syntax noprefix"
  | .global name => ".globl " ++ name
  | .label name => name ++ ":"
  | .comment text => indent ++ "# " ++ text
  | .instr i => indent ++ instrText i

end Line

structure Emission where
  /-- The number of values on the evaluation stack before the line. -/
  depth : Nat
  line : Line
deriving DecidableEq

structure Routine where
  code : List Emission
  /-- The number of label indices used. -/
  labels : Nat
  /-- The number of bytes reserved for variables. -/
  frame : Int
deriving DecidableEq

namespace Routine

def text (r : Routine) : String :=
  String.intercalate "\n" (r.code.map fun e => e.line.text) ++ "\n"

def instrs (r : Routine) : List Instr :=
  r.code.filterMap fun e =>
    match e.line with
    | .instr i => some i
    | _ => none

end Routine

structure RoutineOptions where
  /-- The name of the routine. -/
  entry : String := "main"
  /-- Whether comments are written. -/
  comments : Bool := false
  /-- The frame takes up a multiple of this number of bytes. -/
  alignment : Int := 16
deriving DecidableEq

inductive OptionFault where
  | emptyEntry
  | alignment (value : Int)
deriving DecidableEq

def OptionFault.message : OptionFault → String
  | .emptyEntry => "entry_symbol must not be empty"
  | .alignment value => s!"stack_alignment must be a positive multiple of {wordSize}, got {value}"

/-- Options are valid if the entry has a name and the alignment is a positive number of words. -/
def RoutineOptions.fault? (o : RoutineOptions) : Option OptionFault :=
  if o.entry.isEmpty then some .emptyEntry
  else if o.alignment ≤ 0 || o.alignment % wordSize != 0 then some (.alignment o.alignment)
  else none

inductive GenerationFault where
  | zeroAlignment
  | uncovered (frame : Int) (slot : Slot)
  | outside (frame : Int) (ref : VarRef)
  | unsupportedExpression (location : Location)
  | unsupportedStatement (location : Location)
  | emptyStack (into : Register)
  | unbalancedExpression (form : String) (left : Int) (location : Location)
  | unbalancedStatement (form : String) (before after : Nat) (location : Location)
deriving DecidableEq

/-- The report of a fault. A frame that cannot be computed at all has none. -/
def GenerationFault.diagnostic? : GenerationFault → Option Diagnostic
  | .zeroAlignment => none
  | .uncovered frame slot => some <|
    .invariant s!"frame of {frame} bytes does not cover '{slot.name}' at [rbp-{slot.offset}]"
  | .outside frame ref => some <|
    .invariant
      s!"'{ref.name}' at [rbp-{ref.offset}] lies outside the {frame} byte frame"
      (some ref.location)
  | .unsupportedExpression location => some
      { category := .generation
        message := "unsupported expression Expression"
        location := some location }
  | .unsupportedStatement location => some
      { category := .generation
        message := "unsupported statement Statement"
        location := some location }
  | .emptyStack into => some <|
    .invariant s!"pop into {into.name} from an empty evaluation stack"
  | .unbalancedExpression form left location => some <|
    .invariant s!"{form} left {left} values on the evaluation stack instead of 1" (some location)
  | .unbalancedStatement form before after location => some <|
    .invariant s!"{form} changed the evaluation stack depth from {before} to {after}"
      (some location)

end StackLang
