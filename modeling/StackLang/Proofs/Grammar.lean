import StackLang.Program.Cursor

/-!
# The grammar

The language as a set of sentences over classes of tokens, and the tree of every derivation. The
rules say nothing of cursors, bounds or look-ahead. They are ambiguous where an `else` could belong
to more than one `if`; `NearestElse` picks out the trees in which it belongs to the nearest one.
-/

namespace StackLang

/-- The class of a token, which is all that the grammar looks at. -/
inductive Kind where
  | endOfInput
  | identifier
  | number
  | symbol (s : Symbol)
deriving DecidableEq

def Token.kind (t : Token) : Kind :=
  match t.lexeme with
  | .endOfInput => .endOfInput
  | .identifier _ => .identifier
  | .number _ => .number
  | .symbol s _ => .symbol s

namespace Grammar

/-- The levels of binary operators. -/
inductive Rank where
  | multiplicative
  | additive
  | relational
  | equality
deriving DecidableEq

/-- The forms of the language. An operand of the tightest operators is `unary`. -/
inductive Form where
  | primary
  | unary
  | level (rank : Rank)
  | expression
deriving DecidableEq

/-- What the operators of a level join. -/
def Rank.operand : Rank → Form
  | .multiplicative => .unary
  | .additive => .level .multiplicative
  | .relational => .level .additive
  | .equality => .level .relational

def Rank.operators : Rank → List Symbol
  | .multiplicative => [.star, .slash]
  | .additive => [.plus, .minus]
  | .relational => [.lt, .le, .gt, .ge]
  | .equality => [.eq, .ne]

/-! ## Sentences -/

/-- A plus sign or nothing. -/
def OptionalPlus (ks : List Kind) : Prop :=
  ks = [] ∨ ks = [.symbol .plus]

/-- What may stand before an assignment sign. -/
inductive TargetSentence : List Kind → Prop where
  | name {sign} : OptionalPlus sign → TargetSentence (sign ++ [.identifier])
  | parentheses {sign ks} : OptionalPlus sign → TargetSentence ks →
      TargetSentence (sign ++ .symbol .leftParen :: (ks ++ [.symbol .rightParen]))

inductive ExprSentence : Form → List Kind → Prop where
  | number : ExprSentence .primary [.number]
  | name : ExprSentence .primary [.identifier]
  | parentheses {ks} : ExprSentence .expression ks →
      ExprSentence .primary (.symbol .leftParen :: (ks ++ [.symbol .rightParen]))
  | unsigned {ks} : ExprSentence .primary ks → ExprSentence .unary ks
  | plus {ks} : ExprSentence .primary ks → ExprSentence .unary (.symbol .plus :: ks)
  | minus {ks} : ExprSentence .primary ks → ExprSentence .unary (.symbol .minus :: ks)
  | operand {rank ks} : ExprSentence rank.operand ks → ExprSentence (.level rank) ks
  | operator {rank ks s ls} : ExprSentence (.level rank) ks → s ∈ rank.operators →
      ExprSentence rank.operand ls → ExprSentence (.level rank) (ks ++ .symbol s :: ls)
  | equality {ks} : ExprSentence (.level .equality) ks → ExprSentence .expression ks
  | assignment {ks ls} : TargetSentence ks → ExprSentence .expression ls →
      ExprSentence .expression (ks ++ .symbol .assign :: ls)

/-- An expression or nothing. -/
def ClauseSentence (ks : List Kind) : Prop :=
  ks = [] ∨ ExprSentence .expression ks

mutual

inductive StmtSentence : List Kind → Prop where
  | expr {ks} : ExprSentence .expression ks → StmtSentence (ks ++ [.symbol .semicolon])
  | ret {ks} : ExprSentence .expression ks →
      StmtSentence (.symbol .return_ :: (ks ++ [.symbol .semicolon]))
  | ifThen {ks ls} : ExprSentence .expression ks → StmtSentence ls →
      StmtSentence (.symbol .if_ :: .symbol .leftParen :: (ks ++ .symbol .rightParen :: ls))
  | ifElse {ks ls ms} : ExprSentence .expression ks → StmtSentence ls → StmtSentence ms →
      StmtSentence (.symbol .if_ :: .symbol .leftParen ::
        (ks ++ .symbol .rightParen :: (ls ++ .symbol .else_ :: ms)))
  | while_ {ks ls} : ExprSentence .expression ks → StmtSentence ls →
      StmtSentence (.symbol .while_ :: .symbol .leftParen :: (ks ++ .symbol .rightParen :: ls))
  | for_ {is cs us ls} : ClauseSentence is → ClauseSentence cs → ClauseSentence us →
      StmtSentence ls →
      StmtSentence (.symbol .for_ :: .symbol .leftParen :: (is ++ .symbol .semicolon ::
        (cs ++ .symbol .semicolon :: (us ++ .symbol .rightParen :: ls))))
  | block {ks} : ProgramSentence ks →
      StmtSentence (.symbol .leftBrace :: (ks ++ [.symbol .rightBrace]))

/-- Statements one after the other. -/
inductive ProgramSentence : List Kind → Prop where
  | nil : ProgramSentence []
  | cons {ks ls} : StmtSentence ks → ProgramSentence ls → ProgramSentence (ks ++ ls)

end

/-! ## Derivations

A derivation of a tree from tokens. `place` gives the slot of every name. -/

/-- What a binary operator makes of its operands in the order of the text. -/
inductive Joins : Rank → Symbol → Expr → Expr → Expr → Prop where
  | mul {a b} : Joins .multiplicative .star a b (.binary a.location .mul a b)
  | div {a b} : Joins .multiplicative .slash a b (.binary a.location .div a b)
  | add {a b} : Joins .additive .plus a b (.binary a.location .add a b)
  | sub {a b} : Joins .additive .minus a b (.binary a.location .sub a b)
  | lt {a b} : Joins .relational .lt a b (.binary a.location .lt a b)
  | le {a b} : Joins .relational .le a b (.binary a.location .le a b)
  | gt {a b} : Joins .relational .gt a b (.binary a.location .lt b a)
  | ge {a b} : Joins .relational .ge a b (.binary a.location .le b a)
  | eq {a b} : Joins .equality .eq a b (.binary a.location .eq a b)
  | ne {a b} : Joins .equality .ne a b (.binary a.location .ne a b)

variable (place : String → Int)

inductive DerivesTarget : List Token → VarRef → Prop where
  | name {sign t n} : OptionalPlus (sign.map Token.kind) → t.lexeme = .identifier n →
      DerivesTarget (sign ++ [t]) ⟨t.location, n, place n⟩
  | parentheses {sign l ts r ref} : OptionalPlus (sign.map Token.kind) →
      l.kind = .symbol .leftParen → DerivesTarget ts ref → r.kind = .symbol .rightParen →
      DerivesTarget (sign ++ l :: (ts ++ [r])) ref

inductive DerivesExpr : Form → List Token → Expr → Prop where
  | number {t v} : t.lexeme = .number v → DerivesExpr .primary [t] (.number t.location v)
  | name {t n} : t.lexeme = .identifier n →
      DerivesExpr .primary [t] (.var ⟨t.location, n, place n⟩)
  | parentheses {l ts r e} : l.kind = .symbol .leftParen → DerivesExpr .expression ts e →
      r.kind = .symbol .rightParen → DerivesExpr .primary (l :: (ts ++ [r])) e
  | unsigned {ts e} : DerivesExpr .primary ts e → DerivesExpr .unary ts e
  | plus {t ts e} : t.kind = .symbol .plus → DerivesExpr .primary ts e →
      DerivesExpr .unary (t :: ts) e
  | minus {t ts e} : t.kind = .symbol .minus → DerivesExpr .primary ts e →
      DerivesExpr .unary (t :: ts) (.binary t.location .sub (.number t.location 0) e)
  | operand {rank ts e} : DerivesExpr rank.operand ts e → DerivesExpr (.level rank) ts e
  | operator {rank ts a t s us b e} : DerivesExpr (.level rank) ts a → t.kind = .symbol s →
      DerivesExpr rank.operand us b → Joins rank s a b e →
      DerivesExpr (.level rank) (ts ++ t :: us) e
  | equality {ts e} : DerivesExpr (.level .equality) ts e → DerivesExpr .expression ts e
  | assignment {ts ref t us e} : DerivesTarget place ts ref → t.kind = .symbol .assign →
      DerivesExpr .expression us e →
      DerivesExpr .expression (ts ++ t :: us) (.assign ref.location ref e)

inductive DerivesClause : List Token → Option Expr → Prop where
  | absent : DerivesClause [] none
  | present {ts e} : DerivesExpr place .expression ts e → DerivesClause ts (some e)

mutual

/-- A statement stands where its first token does. -/
inductive DerivesStmt : List Token → Stmt → Prop where
  | expr {t ts e s} : DerivesExpr place .expression (t :: ts) e → s.kind = .symbol .semicolon →
      DerivesStmt (t :: (ts ++ [s])) (.expr t.location e)
  | ret {t ts e s} : t.kind = .symbol .return_ → DerivesExpr place .expression ts e →
      s.kind = .symbol .semicolon → DerivesStmt (t :: (ts ++ [s])) (.ret t.location e)
  | ifThen {t l ts c r us a} : t.kind = .symbol .if_ → l.kind = .symbol .leftParen →
      DerivesExpr place .expression ts c → r.kind = .symbol .rightParen → DerivesStmt us a →
      DerivesStmt (t :: l :: (ts ++ r :: us)) (.ifThen t.location c a)
  | ifElse {t l ts c r us a e vs b} : t.kind = .symbol .if_ → l.kind = .symbol .leftParen →
      DerivesExpr place .expression ts c → r.kind = .symbol .rightParen → DerivesStmt us a →
      e.kind = .symbol .else_ → DerivesStmt vs b →
      DerivesStmt (t :: l :: (ts ++ r :: (us ++ e :: vs))) (.ifElse t.location c a b)
  | while_ {t l ts c r us a} : t.kind = .symbol .while_ → l.kind = .symbol .leftParen →
      DerivesExpr place .expression ts c → r.kind = .symbol .rightParen → DerivesStmt us a →
      DerivesStmt (t :: l :: (ts ++ r :: us)) (.while_ t.location c a)
  | for_ {t l is i m cs c n us u r vs a} : t.kind = .symbol .for_ → l.kind = .symbol .leftParen →
      DerivesClause place is i → m.kind = .symbol .semicolon →
      DerivesClause place cs c → n.kind = .symbol .semicolon →
      DerivesClause place us u → r.kind = .symbol .rightParen → DerivesStmt vs a →
      DerivesStmt (t :: l :: (is ++ m :: (cs ++ n :: (us ++ r :: vs)))) (.for_ t.location i c u a)
  | block {l ts ss r} : l.kind = .symbol .leftBrace → DerivesProgram ts ss →
      r.kind = .symbol .rightBrace → DerivesStmt (l :: (ts ++ [r])) (.block l.location ss)

inductive DerivesProgram : List Token → List Stmt → Prop where
  | nil : DerivesProgram [] []
  | cons {ts s us ss} : DerivesStmt ts s → DerivesProgram us ss →
      DerivesProgram (ts ++ us) (s :: ss)

end

end Grammar

/-! ## The nearest `if` -/

/-- The statement ends in an `if` that an `else` after it could belong to. -/
def Stmt.EndsOpen : Stmt → Prop
  | .ifThen _ _ _ => True
  | .ifElse _ _ _ b => b.EndsOpen
  | .while_ _ _ a => a.EndsOpen
  | .for_ _ _ _ _ a => a.EndsOpen
  | .expr _ _ | .ret _ _ | .block _ _ | .bare _ => False

mutual

/-- No `else` in the statement could have belonged to a nearer `if`. -/
def Stmt.NearestElse : Stmt → Prop
  | .ifThen _ _ a => a.NearestElse
  | .ifElse _ _ a b => ¬ a.EndsOpen ∧ a.NearestElse ∧ b.NearestElse
  | .while_ _ _ a => a.NearestElse
  | .for_ _ _ _ _ a => a.NearestElse
  | .block _ ss => AllNearestElse ss
  | .expr _ _ | .ret _ _ | .bare _ => True

def AllNearestElse : List Stmt → Prop
  | [] => True
  | s :: ss => s.NearestElse ∧ AllNearestElse ss

end

end StackLang
