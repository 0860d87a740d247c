import StackLang.Diagnostic
import StackLang.Text.Digit
import StackLang.Text.Quoted

/-!
# Tokens

The smallest pieces of a program text: names, numbers, and the fixed symbols of the language. A
token keeps the place where it starts.
-/

namespace StackLang

inductive Symbol where
  | return_
  | if_
  | else_
  | while_
  | for_
  | plus
  | minus
  | star
  | slash
  | eq
  | ne
  | lt
  | le
  | gt
  | ge
  | assign
  | leftParen
  | rightParen
  | leftBrace
  | rightBrace
  | semicolon
deriving DecidableEq

namespace Symbol

def spelling : Symbol → String
  | .return_ => "return"
  | .if_ => "if"
  | .else_ => "else"
  | .while_ => "while"
  | .for_ => "for"
  | .plus => "+"
  | .minus => "-"
  | .star => "*"
  | .slash => "/"
  | .eq => "=="
  | .ne => "!="
  | .lt => "<"
  | .le => "<="
  | .gt => ">"
  | .ge => ">="
  | .assign => "="
  | .leftParen => "("
  | .rightParen => ")"
  | .leftBrace => "\x7b"
  | .rightBrace => "\x7d"
  | .semicolon => ";"

def name : Symbol → String
  | .return_ => "RETURN"
  | .if_ => "IF"
  | .else_ => "ELSE"
  | .while_ => "WHILE"
  | .for_ => "FOR"
  | .plus => "PLUS"
  | .minus => "MINUS"
  | .star => "STAR"
  | .slash => "SLASH"
  | .eq => "EQ"
  | .ne => "NE"
  | .lt => "LT"
  | .le => "LE"
  | .gt => "GT"
  | .ge => "GE"
  | .assign => "ASSIGN"
  | .leftParen => "LPAREN"
  | .rightParen => "RPAREN"
  | .leftBrace => "LBRACE"
  | .rightBrace => "RBRACE"
  | .semicolon => "SEMICOLON"

def all : List Symbol :=
  [.return_, .if_, .else_, .while_, .for_, .plus, .minus, .star, .slash, .eq, .ne, .lt, .le, .gt,
    .ge, .assign, .leftParen, .rightParen, .leftBrace, .rightBrace, .semicolon]

/-- The words that are not names. -/
def keywords : List Symbol :=
  [.return_, .if_, .else_, .while_, .for_]

def keyword? (word : String) : Option Symbol :=
  keywords.find? fun s => s.spelling == word

end Symbol

/-- What a token says. A symbol carries the text it was met as, which for scanned text is always
its spelling. -/
inductive Lexeme where
  | endOfInput
  | identifier (name : String)
  | number (value : Int)
  | symbol (sym : Symbol) (text : String)
deriving DecidableEq

structure Token where
  lexeme : Lexeme
  location : Location
deriving DecidableEq

namespace Token

def kindName (t : Token) : String :=
  match t.lexeme with
  | .endOfInput => "EOF"
  | .identifier _ => "IDENTIFIER"
  | .number _ => "NUMBER"
  | .symbol s _ => s.name

/-- The token as written, or a readable name for the end of the input. -/
def text? (t : Token) : Option String :=
  match t.lexeme with
  | .endOfInput => some "end of input"
  | .identifier name => some name
  | .number value => Text.writeDecimal? value
  | .symbol _ text => some text

def isEnd (t : Token) : Bool :=
  t.lexeme = .endOfInput

def isSymbol (t : Token) (s : Symbol) : Bool :=
  match t.lexeme with
  | .symbol s' _ => s' = s
  | _ => false

def dump (t : Token) : String :=
  let place := s!"{t.location.line}:{t.location.column}"
  match t.lexeme with
  | .endOfInput => s!"Token(EOF, {place})"
  | .number value => s!"Token(NUMBER, {value}, {place})"
  | .identifier name => s!"Token(IDENTIFIER, {Text.quote name}, {place})"
  | .symbol s text => s!"Token({s.name}, {Text.quote text}, {place})"

end Token

end StackLang
