import StackLang.Text.Blank

/-!
# Lines

A program text has lines that end at a line feed only. A listing has lines that end at any of the
Unicode line boundaries, and a text file is read with every line ending made a line feed.
-/

namespace StackLang.Text

def isLineEnd (c : Char) : Bool :=
  let n := c.toNat
  (0x0A ≤ n && n ≤ 0x0D) || (0x1C ≤ n && n ≤ 0x1E) || n == 0x85 || n == 0x2028 || n == 0x2029

/-- A carriage return before a line feed is no line ending of its own. -/
def joinReturns : List Char → List Char
  | '\r' :: '\n' :: cs => '\n' :: joinReturns cs
  | c :: cs => c :: joinReturns cs
  | [] => []

/-- The lines of a listing, without their endings. A final line that is empty does not count. -/
def lines (cs : List Char) : List (List Char) :=
  let pieces := (joinReturns cs).splitOnP isLineEnd
  if pieces.getLast? = some [] then pieces.dropLast else pieces

/-- The text of a file, with every carriage return, alone or before a line feed, read as a line
feed. -/
def unifyReturns (cs : List Char) : List Char :=
  (joinReturns cs).map fun c => if c = '\r' then '\n' else c

/-- The text from an offset up to the next line feed, exactly as it stands. -/
def lineFrom (source : String) (start : Nat) : String :=
  String.ofList ((source.toList.drop start).takeWhile (· != '\n'))

def sourceLines (source : String) : List String :=
  (source.toList.splitOn '\n').map fun line => String.ofList (dropTrailing (· == '\r') line)

/-- Line number `line`, counted from 1, if there is one. -/
def lineAt? (lines : List String) (line : Int) : Option String :=
  if 0 < line then lines[line.toNat - 1]? else none

end StackLang.Text
