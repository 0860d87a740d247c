import StackLang.Text.Digit
import StackLang.Text.Lines
import StackLang.Token

/-!
# Scanning

A program text is cut from the left into pieces: a blank, a comment, or the longest token that
starts there. Scanning stops at the first place where no piece can be cut, and the tokens before
that place stand.
-/

namespace StackLang

/-- A position in a text, with the offset at which its line starts. Only a line feed starts a new
line. -/
structure Mark where
  line : Nat := 1
  column : Nat := 1
  offset : Nat := 0
  lineStart : Nat := 0
deriving DecidableEq

namespace Mark

def next (m : Mark) (c : Char) : Mark :=
  if c = '\n' then ⟨m.line + 1, 1, m.offset + 1, m.offset + 1⟩
  else { m with column := m.column + 1, offset := m.offset + 1 }

def advance (m : Mark) (cs : List Char) : Mark :=
  cs.foldl next m

def location (m : Mark) (filename : String) : Location :=
  ⟨filename, m.line, m.column, m.offset⟩

end Mark

namespace Scan

/-- The blanks of the language. -/
def isSpace (c : Char) : Bool :=
  c == ' ' || (0x09 ≤ c.toNat && c.toNat ≤ 0x0D)

def isLetter (c : Char) : Bool :=
  ('a' ≤ c && c ≤ 'z') || ('A' ≤ c && c ≤ 'Z') || c == '_'

def isDigit (c : Char) : Bool :=
  '0' ≤ c && c ≤ '9'

def isNamePart (c : Char) : Bool :=
  isLetter c || isDigit c

/-- The largest number a program may write: the largest signed word. -/
def largestLiteral : Nat := 0x7FFFFFFFFFFFFFFF

inductive Cause where
  | unterminatedComment
  | literalRange (digits : String)
  | tooManyDigits (excess : Text.TooManyDigits)
  | loneBang
  | invalidCharacter (char : Char)
deriving DecidableEq

inductive Piece where
  | gap
  | lexeme (l : Lexeme)
  | fault (cause : Cause)
deriving DecidableEq

/-- The number of characters up to and with the first closing of a block comment. -/
def commentLength? : List Char → Option Nat
  | '*' :: '/' :: _ => some 2
  | _ :: cs => (commentLength? cs).map (· + 1)
  | [] => none

/-- A symbol of two characters if `=` follows, of one character otherwise. -/
def cutComparison (double single : Symbol) (cs : List Char) : Piece × Nat :=
  match cs with
  | '=' :: _ => (.lexeme (.symbol double double.spelling), 1)
  | _ => (.lexeme (.symbol single single.spelling), 0)

def cutSymbol (s : Symbol) : Piece × Nat :=
  (.lexeme (.symbol s s.spelling), 0)

def wordLexeme (word : String) : Lexeme :=
  match Symbol.keyword? word with
  | some s => .symbol s word
  | none => .identifier word

def numberPiece (digits : List Char) : Piece :=
  match Text.readDecimal digits with
  | .error excess => .fault (.tooManyDigits excess)
  | .ok value =>
    if largestLiteral < value then .fault (.literalRange (String.ofList digits))
    else .lexeme (.number value)

/-- The piece that starts with `c`, and how many characters of `cs`, which follow `c`, belong to
it. -/
def cut (c : Char) (cs : List Char) : Piece × Nat :=
  if isSpace c then (.gap, 0)
  else if isLetter c then
    let tail := cs.takeWhile isNamePart
    (.lexeme (wordLexeme (String.ofList (c :: tail))), tail.length)
  else if isDigit c then
    let tail := cs.takeWhile isDigit
    (numberPiece (c :: tail), tail.length)
  else
    match c, cs with
    | '/', '/' :: _ => (.gap, (cs.takeWhile (· != '\n')).length)
    | '/', '*' :: body =>
      match commentLength? body with
      | some n => (.gap, n + 1)
      | none => (.fault .unterminatedComment, 0)
    | '=', _ => cutComparison .eq .assign cs
    | '<', _ => cutComparison .le .lt cs
    | '>', _ => cutComparison .ge .gt cs
    | '!', '=' :: _ => (.lexeme (.symbol .ne Symbol.ne.spelling), 1)
    | '!', _ => (.fault .loneBang, 0)
    | '+', _ => cutSymbol .plus
    | '-', _ => cutSymbol .minus
    | '*', _ => cutSymbol .star
    | '/', _ => cutSymbol .slash
    | '(', _ => cutSymbol .leftParen
    | ')', _ => cutSymbol .rightParen
    | '\x7b', _ => cutSymbol .leftBrace
    | '\x7d', _ => cutSymbol .rightBrace
    | ';', _ => cutSymbol .semicolon
    | _, _ => (.fault (.invalidCharacter c), 0)

end Scan

structure ScanFault where
  cause : Scan.Cause
  mark : Mark
deriving DecidableEq

/-- The outcome of scanning: the tokens met, closed by the end of the input unless a fault came
first. -/
structure Scan where
  tokens : List Token
  fault : Option ScanFault
deriving DecidableEq

namespace Scan

def push (t : Token) (s : Scan) : Scan :=
  { s with tokens := t :: s.tokens }

def scanFrom (filename : String) (mark : Mark) (cs : List Char) : Scan :=
  match cs with
  | [] => ⟨[⟨.endOfInput, mark.location filename⟩], none⟩
  | c :: cs =>
    match cut c cs with
    | (.fault cause, _) => ⟨[], some ⟨cause, mark⟩⟩
    | (.gap, n) => scanFrom filename (mark.advance (c :: cs.take n)) (cs.drop n)
    | (.lexeme l, n) =>
      push ⟨l, mark.location filename⟩
        (scanFrom filename (mark.advance (c :: cs.take n)) (cs.drop n))
termination_by cs.length
decreasing_by all_goals simp only [List.length_drop, List.length_cons]; omega

end Scan

namespace ScanFault

/-- A run of digits that is too long is refused before it is read, so it has no diagnostic; every
other fault has one, which quotes the line as it stands in the source. -/
def diagnostic (f : ScanFault) (filename source : String) :
    Except Text.TooManyDigits Diagnostic :=
  let location := some (f.mark.location filename)
  let line := some (Text.lineFrom source f.mark.lineStart)
  match f.cause with
  | .tooManyDigits excess => .error excess
  | .unterminatedComment => .ok
      { category := .lexical
        message := "unterminated block comment"
        location := location
        hint := some "add closing */ to terminate the comment"
        sourceLine := line }
  | .literalRange digits => .ok
      { category := .lexical
        message := s!"integer literal '{digits}' out of range"
        location := location
        hint := some s!"the largest supported literal is {Scan.largestLiteral}"
        sourceLine := line
        span := max digits.length 1 }
  | .loneBang => .ok (.invalidCharacter "!" location line (some "did you mean '!='?"))
  | .invalidCharacter c => .ok (.invalidCharacter (String.singleton c) location line)

end ScanFault

def scan (source : String) (filename : String := "<input>") : Scan :=
  Scan.scanFrom filename {} source.toList

end StackLang
