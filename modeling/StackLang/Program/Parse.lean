import StackLang.Program.Cursor

/-!
# Reading programs

    program    = statement*
    statement  = expression ';' | 'return' expression ';' | block
               | 'if' '(' expression ')' statement ('else' statement)?
               | 'while' '(' expression ')' statement
               | 'for' '(' expression? ';' expression? ';' expression? ')' statement
    block      = '{' statement* '}'
    expression = variable '=' expression | equality

Equality, relational, additive and multiplicative operators associate to the left and bind
tighter in this order. Every function below takes the parsers of what is nested in its form; the
knot is tied by a bound on the nesting, for which the number of tokens is always enough, since
every nested form starts at least one token later.
-/

namespace StackLang

structure InfixForm where
  op : BinaryOp
  /-- The operand on the right becomes the left one. -/
  exchanged : Bool := false
deriving DecidableEq

abbrev Level := Symbol → Option InfixForm

namespace Level

def equality : Level
  | .eq => some ⟨.eq, false⟩
  | .ne => some ⟨.ne, false⟩
  | _ => none

def relational : Level
  | .lt => some ⟨.lt, false⟩
  | .le => some ⟨.le, false⟩
  | .gt => some ⟨.lt, true⟩
  | .ge => some ⟨.le, true⟩
  | _ => none

def additive : Level
  | .plus => some ⟨.add, false⟩
  | .minus => some ⟨.sub, false⟩
  | _ => none

def multiplicative : Level
  | .star => some ⟨.mul, false⟩
  | .slash => some ⟨.div, false⟩
  | _ => none

def operator? (level : Level) (t : Token) : Option InfixForm :=
  match t.lexeme with
  | .symbol s _ => level s
  | _ => none

end Level

/-- The expression stands where its first operand in the text does. -/
def InfixForm.apply (f : InfixForm) (first second : Expr) : Expr :=
  if f.exchanged then .binary first.location f.op second first
  else .binary first.location f.op first second

namespace Parse

/-! ## Expressions -/

/-- A number, a variable, or an expression in parentheses. -/
def primary (expression : Parse Expr) : Parse Expr := do
  let token ← peek
  match token.lexeme with
  | .number value =>
    advance
    return .number token.location value
  | .identifier name =>
    advance
    let slot ← declare name
    return .var ⟨token.location, slot.name, slot.offset⟩
  | .symbol .leftParen _ =>
    advance
    let e ← expression
    expect .rightParen
    return e
  | _ => unexpected .expression

/-- At most one sign in front of a primary. A minus is a subtraction from zero. -/
def unary (expression : Parse Expr) : Parse Expr := do
  let token ← peek
  match token.lexeme with
  | .symbol .plus _ =>
    advance
    primary expression
  | .symbol .minus _ =>
    advance
    let e ← primary expression
    return .binary token.location .sub (.number token.location 0) e
  | _ => primary expression

/-- Continues a chain of operators of one level after its operand `left`. -/
def chainFrom (operand : Parse Expr) (level : Level) : Nat → Expr → Parse Expr
  | 0, left => return left
  | bound + 1, left => do
    match level.operator? (← peek) with
    | none => return left
    | some form =>
      advance
      let right ← operand
      chainFrom operand level bound (form.apply left right)

/-- Operands joined by operators of one level, to the left. -/
def chain (bound : Nat) (level : Level) (operand : Parse Expr) : Parse Expr := do
  chainFrom operand level bound (← operand)

def multiplicative (bound : Nat) (expression : Parse Expr) : Parse Expr :=
  chain bound .multiplicative (unary expression)

def additive (bound : Nat) (expression : Parse Expr) : Parse Expr :=
  chain bound .additive (multiplicative bound expression)

def relational (bound : Nat) (expression : Parse Expr) : Parse Expr :=
  chain bound .relational (additive bound expression)

def equality (bound : Nat) (expression : Parse Expr) : Parse Expr :=
  chain bound .equality (relational bound expression)

/-- An equality, or an assignment if it is a variable before an assignment sign. -/
def assignment (bound : Nat) (expression : Parse Expr) : Parse Expr := do
  let start ← peek
  let e ← equality bound expression
  if ← at? .assign then
    match e with
    | .var target =>
      advance
      return .assign target.location target (← expression)
    | _ => throw (.assignmentTarget start)
  else return e

/-- An expression with at most `bound` levels of nesting. -/
def expression : (bound : Nat) → Parse Expr
  | 0 => unexpected .expression
  | bound + 1 => assignment bound (expression bound)

/-! ## Statements -/

def condition (expression : Parse Expr) : Parse Expr := do
  expect .leftParen
  let e ← expression
  expect .rightParen
  return e

/-- An expression that may be absent, and the symbol that closes it. -/
def clause (expression : Parse Expr) (close : Symbol) : Parse (Option Expr) := do
  let e ← if ← at? close then pure none else some <$> expression
  expect close
  return e

def blockBody (statement : Parse Stmt) : Nat → Parse (List Stmt)
  | 0 => unexpected (.symbol .rightBrace)
  | bound + 1 => do
    if ← at? .rightBrace then
      advance
      return []
    else if (← peek).isEnd then unexpected (.symbol .rightBrace)
    else
      let first ← statement
      let rest ← blockBody statement bound
      return first :: rest

/-- A statement, by its first token. An `else` belongs to the nearest `if` without one. -/
def statementForm (bound : Nat) (expression : Parse Expr) (statement : Parse Stmt) :
    Parse Stmt := do
  let token ← peek
  match token.lexeme with
  | .symbol .return_ _ =>
    advance
    let value ← expression
    expect .semicolon
    return .ret token.location value
  | .symbol .if_ _ =>
    advance
    let c ← condition expression
    let body ← statement
    if ← at? .else_ then
      advance
      return .ifElse token.location c body (← statement)
    else return .ifThen token.location c body
  | .symbol .while_ _ =>
    advance
    let c ← condition expression
    return .while_ token.location c (← statement)
  | .symbol .for_ _ =>
    advance
    expect .leftParen
    let i ← clause expression .semicolon
    let c ← clause expression .semicolon
    let u ← clause expression .rightParen
    return .for_ token.location i c u (← statement)
  | .symbol .leftBrace _ =>
    advance
    return .block token.location (← blockBody statement bound)
  | _ =>
    let value ← expression
    expect .semicolon
    return .expr token.location value

/-- A statement with at most `bound` levels of nesting. -/
def statement : (bound : Nat) → Parse Stmt
  | 0 => unexpected .expression
  | bound + 1 => statementForm bound (expression (bound + 1)) (statement bound)

def statements (statement : Parse Stmt) : Nat → Parse (List Stmt)
  | 0 => return []
  | bound + 1 => do
    if (← peek).isEnd then return []
    else
      let first ← statement
      let rest ← statements statement bound
      return first :: rest

def program (bound : Nat) (filename : String) : Parse Program := do
  let body ← statements (statement bound) bound
  return ⟨⟨filename, 1, 1, 0⟩, body, (← get).slots⟩

def soleExpression (bound : Nat) : Parse Expr := do
  let e ← expression bound
  if (← peek).isEnd then return e else unexpected .endOfInput

end Parse

namespace Cursor

/-- No nesting can be deeper than the tokens from the cursor on. -/
def nestingBound (c : Cursor) : Nat :=
  c.later.length + 1

def parseProgram (c : Cursor) (filename : String := "<input>") :
    EStateM.Result ParseFault Cursor Program :=
  Parse.program c.nestingBound filename c

def parseExpression (c : Cursor) : EStateM.Result ParseFault Cursor Expr :=
  Parse.soleExpression c.nestingBound c

end Cursor

end StackLang
