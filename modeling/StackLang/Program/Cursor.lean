import StackLang.Program
import StackLang.Text.Lines
import StackLang.Token

/-!
# Cursors

Reading a program moves a cursor over its tokens and gives every name a slot when the cursor
passes it. The last token is the end of the input, which the cursor never passes. A step that
fails leaves the cursor where it was, so the place of a failure and the slots given so far can
be seen.
-/

namespace StackLang

inductive Expected where
  | symbol (s : Symbol)
  | expression
  | endOfInput
deriving DecidableEq

def Expected.text : Expected → String
  | .symbol s => "'" ++ s.spelling ++ "'"
  | .expression => "expression"
  | .endOfInput => "end of input"

inductive ParseFault where
  | unexpected (expected : Expected) (found : Token)
  /-- The expression before an assignment sign is no variable; `start` is its first token. -/
  | assignmentTarget (start : Token)
deriving DecidableEq

/-- The report of a fault, quoting from the lines of the program text. There is none if the token to
be named has no text. -/
def ParseFault.diagnostic? (lines : List String) : ParseFault → Option Diagnostic
  | .unexpected expected found =>
    found.text?.map fun text =>
      .unexpected expected.text text (some found.location) (Text.lineAt? lines found.location.line)
        none none (if found.isEnd then 1 else text.length)
  | .assignmentTarget start =>
    start.text?.map fun text =>
      .assignmentTarget text (some start.location) (Text.lineAt? lines start.location.line)

structure Cursor where
  current : Token
  later : List Token
  slots : SlotTable := {}
deriving DecidableEq

namespace Cursor

/-- A cursor at the first token. The last token must be the end of the input. -/
def ofTokens? : List Token → Option Cursor
  | [] => none
  | t :: ts =>
    if ((t :: ts).getLast (by simp)).isEnd then some { current := t, later := ts } else none

/-- Moves past the current token, unless it is the end of the input. -/
def advance (c : Cursor) : Cursor :=
  if c.current.isEnd then c
  else
    match c.later with
    | [] => c
    | t :: ts => { c with current := t, later := ts }

end Cursor

abbrev Parse := EStateM ParseFault Cursor

namespace Parse

def peek : Parse Token := do
  return (← get).current

def advance : Parse Unit :=
  modify Cursor.advance

def unexpected {α : Type} (expected : Expected) : Parse α := do
  throw (.unexpected expected (← peek))

def at? (s : Symbol) : Parse Bool := do
  return (← peek).isSymbol s

/-- Moves past the symbol, which must be the current token. -/
def expect (s : Symbol) : Parse Unit := do
  if ← at? s then advance else unexpected (.symbol s)

/-- The slot of a name, given now if the name is new. -/
def declare (name : String) : Parse Slot :=
  modifyGet fun c =>
    let (slot, slots) := c.slots.declare name
    (slot, { c with slots := slots })

end Parse

end StackLang
