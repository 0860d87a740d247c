import Mathlib.Logic.Relator
import StackLang.Proofs.Outline

/-!
# Reading in lock-step

Two lists of tokens that differ in places, spellings and names only are read in lock-step, provided
that different names stand for different names: at every moment the cursors are at the same index
and the slots given so far are the same up to names. So one reader succeeds if the other does, with
a program of the same outline, and fails where the other does, for the same reason.
-/

namespace StackLang

/-! ## Tokens -/

/-- The same token up to its place, its name, which corresponds as `named` says, and the spelling of
a symbol. -/
inductive Token.Alike (named : String → String → Prop) : Token → Token → Prop where
  | endOfInput (l l' : Location) : Alike named ⟨.endOfInput, l⟩ ⟨.endOfInput, l'⟩
  | identifier {n m : String} (l l' : Location) :
      named n m → Alike named ⟨.identifier n, l⟩ ⟨.identifier m, l'⟩
  | number (value : Int) (l l' : Location) : Alike named ⟨.number value, l⟩ ⟨.number value, l'⟩
  | symbol (s : Symbol) (text text' : String) (l l' : Location) :
      Alike named ⟨.symbol s text, l⟩ ⟨.symbol s text', l'⟩

namespace Token.Alike

variable {named : String → String → Prop} {t u : Token}

theorem isEnd_eq (h : t.Alike named u) : t.isEnd = u.isEnd := by
  cases h <;> simp [isEnd]

theorem isSymbol_eq (h : t.Alike named u) (s : Symbol) : t.isSymbol s = u.isSymbol s := by
  cases h <;> rfl

theorem operator?_eq (h : t.Alike named u) (level : Level) :
    level.operator? t = level.operator? u := by
  cases h <;> rfl

end Token.Alike

/-- What the grammar asked for. A fault without it is one of an assignment target. -/
def ParseFault.expected? : ParseFault → Option Expected
  | .unexpected expected _ => some expected
  | .assignmentTarget _ => none

/-- Two lists of tokens that are alike, with names that correspond one to one. -/
structure Likeness where
  named : String → String → Prop
  biUnique : Relator.BiUnique named
  left : List Token
  right : List Token
  alike : List.Forall₂ (Token.Alike named) left right

namespace Likeness

variable (K : Likeness)

/-! ## Slots -/

/-- The slots of corresponding names. -/
def Slots (s t : Slot) : Prop :=
  K.named s.name t.name ∧ s.offset = t.offset

/-- Tables with corresponding slots in the same order. -/
def Tables (t u : SlotTable) : Prop :=
  List.Forall₂ K.Slots t.slots u.slots

variable {K}

theorem eq_iff_eq {a b c d : String} (h : K.named a b) (h' : K.named c d) : a = c ↔ b = d := by
  constructor
  · rintro rfl
    exact K.biUnique.right h h'
  · rintro rfl
    exact K.biUnique.left h h'

theorem Tables.size_eq {t u : SlotTable} (h : K.Tables t u) : t.size = u.size :=
  h.length_eq

/-- Corresponding names have corresponding slots, or none. -/
theorem Tables.find? {t u : SlotTable} (h : K.Tables t u) {n m : String} (hnm : K.named n m) :
    Option.Rel K.Slots (t.find? n) (u.find? m) := by
  obtain ⟨slots⟩ := t
  obtain ⟨slots'⟩ := u
  change List.Forall₂ K.Slots slots slots' at h
  change Option.Rel K.Slots (slots.find? fun s => s.name == n) (slots'.find? fun s => s.name == m)
  induction h with
  | nil => exact .none
  | @cons s s' slots slots' hs hrest ih =>
      have hname : (s.name == n) = (s'.name == m) := by
        rw [Bool.eq_iff_iff, beq_iff_eq, beq_iff_eq]
        exact eq_iff_eq hs.1 hnm
      rw [List.find?_cons, List.find?_cons, hname]
      cases s'.name == m with
      | true => exact .some hs
      | false => exact ih

theorem Tables.declare {t u : SlotTable} (h : K.Tables t u) {n m : String} (hnm : K.named n m) :
    K.Slots (t.declare n).1 (u.declare m).1 ∧ K.Tables (t.declare n).2 (u.declare m).2 := by
  have hfound := h.find? hnm
  cases hn : t.find? n with
  | none =>
      rw [hn] at hfound
      cases hm : u.find? m with
      | some slot =>
          rw [hm] at hfound
          cases hfound
      | none =>
          rw [SlotTable.declare_of_none hn, SlotTable.declare_of_none hm, ← h.size_eq]
          have hslot : K.Slots ⟨n, (t.size + 1) * wordSize⟩ ⟨m, (t.size + 1) * wordSize⟩ :=
            ⟨hnm, rfl⟩
          exact ⟨hslot, List.rel_append h (.cons hslot .nil)⟩
  | some slot =>
      rw [hn] at hfound
      cases hm : u.find? m with
      | none =>
          rw [hm] at hfound
          cases hfound
      | some slot' =>
          rw [hm] at hfound
          cases hfound with
          | some hslot =>
              rw [SlotTable.declare_of_some hn, SlotTable.declare_of_some hm]
              exact ⟨hslot, h⟩

/-! ## Cursors -/

variable (K) in
/-- Cursors at the same index, with corresponding slots. -/
structure Cursors (c d : Cursor) : Prop where
  place : ∃ i, c.rest = K.left.drop i ∧ d.rest = K.right.drop i
  slots : K.Tables c.slots d.slots

namespace Cursors

variable {c d : Cursor}

theorem rest (h : K.Cursors c d) : List.Forall₂ (Token.Alike K.named) c.rest d.rest := by
  obtain ⟨i, hc, hd⟩ := h.place
  rw [hc, hd]
  exact List.forall₂_drop i K.alike

theorem current (h : K.Cursors c d) : c.current.Alike K.named d.current := by
  have hrest := h.rest
  simp only [Cursor.rest, List.forall₂_cons] at hrest
  exact hrest.1

theorem later (h : K.Cursors c d) : List.Forall₂ (Token.Alike K.named) c.later d.later := by
  have hrest := h.rest
  simp only [Cursor.rest, List.forall₂_cons] at hrest
  exact hrest.2

theorem nestingBound_eq (h : K.Cursors c d) : c.nestingBound = d.nestingBound :=
  congrArg (· + 1) h.later.length_eq

theorem advance (h : K.Cursors c d) : K.Cursors c.advance d.advance := by
  refine ⟨?_, by simpa using h.slots⟩
  obtain ⟨i, hc, hd⟩ := h.place
  have hend := h.current.isEnd_eq
  have hlater := h.later
  cases hcur : c.current.isEnd with
  | true =>
      rw [hcur] at hend
      exact ⟨i, by simpa [Cursor.advance, hcur] using hc,
        by simpa [Cursor.advance, ← hend] using hd⟩
  | false =>
      rw [hcur] at hend
      cases hl : c.later with
      | nil =>
          rw [hl, List.forall₂_nil_left_iff] at hlater
          exact ⟨i, by simpa [Cursor.advance, hcur, hl] using hc,
            by simpa [Cursor.advance, ← hend, hlater] using hd⟩
      | cons t ts =>
          rw [hl] at hlater
          obtain ⟨u, us, -, -, hr⟩ := List.forall₂_cons_left_iff.mp hlater
          refine ⟨i + 1, ?_, ?_⟩
          · rw [← List.tail_drop, ← hc]
            simp [Cursor.advance, Cursor.rest, hcur, hl]
          · rw [← List.tail_drop, ← hd]
            simp [Cursor.advance, Cursor.rest, ← hend, hr]

end Cursors

/-! ## Readers -/

variable (K) in
/-- Both readers succeeded, with values that correspond, or both failed for the same reason. -/
def Results {α : Type} (V : α → α → Prop) :
    EStateM.Result ParseFault Cursor α → EStateM.Result ParseFault Cursor α → Prop
  | .ok a c, .ok b d => V a b ∧ K.Cursors c d
  | .error f c, .error g d => f.expected? = g.expected? ∧ K.Cursors c d
  | _, _ => False

theorem Results.cases {α : Type} {V : α → α → Prop}
    {x y : EStateM.Result ParseFault Cursor α} (h : K.Results V x y) :
    (∃ a b c d, x = .ok a c ∧ y = .ok b d ∧ V a b ∧ K.Cursors c d) ∨
      ∃ f g c d, x = .error f c ∧ y = .error g d ∧ f.expected? = g.expected? ∧
        K.Cursors c d := by
  cases x with
  | ok a c =>
      cases y with
      | ok b d => exact Or.inl ⟨a, b, c, d, rfl, rfl, h.1, h.2⟩
      | error g d => exact h.elim
  | error f c =>
      cases y with
      | ok b d => exact h.elim
      | error g d => exact Or.inr ⟨f, g, c, d, rfl, rfl, h.1, h.2⟩

variable (K) in
/-- From cursors at the same index the readers do the same. -/
def Lockstep {α : Type} (V : α → α → Prop) (x y : Parse α) : Prop :=
  ∀ c d, K.Cursors c d → K.Results V (x c) (y d)

section

variable {α β : Type} {V : α → α → Prop} {W : β → β → Prop}

theorem lockstep_pure {a b : α} (h : V a b) : K.Lockstep V (pure a) (pure b) :=
  fun _ _ hcd => ⟨h, hcd⟩

theorem lockstep_throw {f g : ParseFault} (h : f.expected? = g.expected?) :
    K.Lockstep V (throw f) (throw g) :=
  fun _ _ hcd => ⟨h, hcd⟩

theorem Lockstep.bind {x y : Parse α} {f g : α → Parse β} (hxy : K.Lockstep V x y)
    (hfg : ∀ a b, V a b → K.Lockstep W (f a) (g b)) : K.Lockstep W (x >>= f) (y >>= g) := by
  intro c d hcd
  change K.Results W (EStateM.bind x f c) (EStateM.bind y g d)
  unfold EStateM.bind
  rcases (hxy c d hcd).cases with ⟨a, b, c', d', hx, hy, hab, hcd'⟩ | ⟨e, e', c', d', hx, hy, h⟩
  · rw [hx, hy]
    exact hfg a b hab c' d' hcd'
  · rw [hx, hy]
    exact h

theorem Lockstep.map {x y : Parse α} (hxy : K.Lockstep V x y) {f : α → β}
    (hf : ∀ a b, V a b → W (f a) (f b)) : K.Lockstep W (f <$> x) (f <$> y) := by
  rw [map_eq_pure_bind, map_eq_pure_bind]
  exact hxy.bind fun a b hab => lockstep_pure (hf a b hab)

theorem lockstep_peek : K.Lockstep (Token.Alike K.named) Parse.peek Parse.peek :=
  fun _ _ hcd => ⟨hcd.current, hcd⟩

theorem lockstep_advance : K.Lockstep Eq Parse.advance Parse.advance :=
  fun _ _ hcd => ⟨rfl, hcd.advance⟩

theorem lockstep_unexpected (expected : Expected) :
    K.Lockstep V (Parse.unexpected expected) (Parse.unexpected expected) :=
  lockstep_peek.bind fun _ _ _ => lockstep_throw rfl

theorem lockstep_at? (s : Symbol) : K.Lockstep Eq (Parse.at? s) (Parse.at? s) :=
  lockstep_peek.bind fun _ _ h => lockstep_pure (h.isSymbol_eq s)

/-- Readers that ask first whether a symbol is ahead. -/
theorem lockstep_ifAt (s : Symbol) {x y : Parse α} {x' y' : Parse α} (hx : K.Lockstep V x x')
    (hy : K.Lockstep V y y') :
    K.Lockstep V (do if ← Parse.at? s then x else y) (do if ← Parse.at? s then x' else y') := by
  refine (lockstep_at? s).bind fun a b hab => ?_
  subst hab
  cases a with
  | true => exact hx
  | false => exact hy

theorem lockstep_expect (s : Symbol) : K.Lockstep Eq (Parse.expect s) (Parse.expect s) :=
  lockstep_ifAt s lockstep_advance (lockstep_unexpected _)

theorem lockstep_declare {n m : String} (h : K.named n m) :
    K.Lockstep K.Slots (Parse.declare n) (Parse.declare m) := by
  intro c d hcd
  obtain ⟨hslot, htables⟩ := hcd.slots.declare h
  exact ⟨hslot, hcd.place, htables⟩

end

/-! ## Expressions -/

/-- Expressions that differ in names and places only. -/
def SameExpr (e e' : Expr) : Prop :=
  e.outline = e'.outline

theorem SameExpr.apply {a a' b b' : Expr} (ha : SameExpr a a') (hb : SameExpr b b')
    (form : InfixForm) : SameExpr (form.apply a b) (form.apply a' b') := by
  unfold SameExpr at *
  cases h : form.exchanged <;> simp [InfixForm.apply, h, Expr.outline, ha, hb]

section

open Parse

variable {expression expression' : Parse Expr}

theorem lockstep_primary (hx : K.Lockstep SameExpr expression expression') :
    K.Lockstep SameExpr (primary expression) (primary expression') := by
  refine lockstep_peek.bind fun t u htu => ?_
  cases htu with
  | endOfInput => exact lockstep_unexpected _
  | number value => exact lockstep_advance.bind fun _ _ _ => lockstep_pure rfl
  | identifier _ _ hnm =>
      refine lockstep_advance.bind fun _ _ _ => (lockstep_declare hnm).bind fun s s' hs => ?_
      refine lockstep_pure ?_
      simp [SameExpr, Expr.outline, VarRef.outline, hs.2]
  | symbol s text text' =>
      cases s
      case leftParen =>
        exact lockstep_advance.bind fun _ _ _ => hx.bind fun e e' he =>
          (lockstep_expect _).bind fun _ _ _ => lockstep_pure he
      all_goals exact lockstep_unexpected _

theorem lockstep_unary (hx : K.Lockstep SameExpr expression expression') :
    K.Lockstep SameExpr (unary expression) (unary expression') := by
  have hprimary := lockstep_primary hx
  refine lockstep_peek.bind fun t u htu => ?_
  cases htu with
  | endOfInput | number | identifier => exact hprimary
  | symbol s text text' =>
      cases s
      case plus => exact lockstep_advance.bind fun _ _ _ => hprimary
      case minus =>
        refine lockstep_advance.bind fun _ _ _ => hprimary.bind fun e e' he => lockstep_pure ?_
        simp only [SameExpr, Expr.outline, Expr.binary.injEq, true_and]
        exact he
      all_goals exact hprimary

theorem lockstep_chainFrom {operand operand' : Parse Expr}
    (ho : K.Lockstep SameExpr operand operand') (level : Level) (bound : Nat) {e e' : Expr}
    (he : SameExpr e e') :
    K.Lockstep SameExpr (chainFrom operand level bound e) (chainFrom operand' level bound e') := by
  induction bound generalizing e e' with
  | zero => exact lockstep_pure he
  | succ bound ih =>
      refine lockstep_peek.bind fun t u htu => ?_
      rw [htu.operator?_eq level]
      cases level.operator? u with
      | none => exact lockstep_pure he
      | some form =>
          exact lockstep_advance.bind fun _ _ _ => ho.bind fun r r' hr => ih (he.apply hr form)

theorem lockstep_chain {operand operand' : Parse Expr}
    (ho : K.Lockstep SameExpr operand operand') (bound : Nat) (level : Level) :
    K.Lockstep SameExpr (chain bound level operand) (chain bound level operand') :=
  ho.bind fun _ _ he => lockstep_chainFrom ho level bound he

theorem lockstep_equality (hx : K.Lockstep SameExpr expression expression') (bound : Nat) :
    K.Lockstep SameExpr (equality bound expression) (equality bound expression') :=
  lockstep_chain (lockstep_chain (lockstep_chain (lockstep_chain (lockstep_unary hx) bound _)
    bound _) bound _) bound _

theorem lockstep_assignment (hx : K.Lockstep SameExpr expression expression') (bound : Nat) :
    K.Lockstep SameExpr (assignment bound expression) (assignment bound expression') := by
  refine lockstep_peek.bind fun t u _ => (lockstep_equality hx bound).bind fun e e' he => ?_
  refine lockstep_ifAt .assign ?_ (lockstep_pure he)
  cases e with
  | var r =>
      cases e' with
      | var r' =>
          refine lockstep_advance.bind fun _ _ _ => hx.bind fun v v' hv => lockstep_pure ?_
          have hr : r.outline = r'.outline := Expr.var.inj he
          simp only [SameExpr, Expr.outline, hr, Expr.assign.injEq, true_and]
          exact hv
      | number | binary | assign | bare => cases he
  | number | binary | assign | bare =>
      cases e' with
      | var r' => cases he
      | number | binary | assign | bare => exact lockstep_throw rfl

theorem lockstep_expression (bound : Nat) :
    K.Lockstep SameExpr (Parse.expression bound) (Parse.expression bound) := by
  induction bound with
  | zero => exact lockstep_unexpected _
  | succ bound ih => exact lockstep_assignment ih bound

/-! ## Statements -/

/-- Statements that differ in names and places only. -/
def SameStmt (s s' : Stmt) : Prop :=
  s.outline = s'.outline

def SameStmts (ss ss' : List Stmt) : Prop :=
  outlineAll ss = outlineAll ss'

def SameClause (e e' : Option Expr) : Prop :=
  e.map Expr.outline = e'.map Expr.outline

theorem SameStmt.cons {s s' : Stmt} {ss ss' : List Stmt} (h : SameStmt s s')
    (hs : SameStmts ss ss') : SameStmts (s :: ss) (s' :: ss') := by
  unfold SameStmt SameStmts at *
  rw [outlineAll, outlineAll, h, hs]

variable {statement statement' : Parse Stmt}

theorem lockstep_condition (hx : K.Lockstep SameExpr expression expression') :
    K.Lockstep SameExpr (condition expression) (condition expression') :=
  (lockstep_expect _).bind fun _ _ _ => hx.bind fun _ _ he =>
    (lockstep_expect _).bind fun _ _ _ => lockstep_pure he

theorem lockstep_clause (hx : K.Lockstep SameExpr expression expression') (close : Symbol) :
    K.Lockstep SameClause (clause expression close) (clause expression' close) := by
  refine lockstep_ifAt close ?_ ?_
  · exact (lockstep_expect _).bind fun _ _ _ => lockstep_pure rfl
  · refine (hx.map (W := SameClause) fun e e' he => ?_).bind fun e e' he =>
      (lockstep_expect _).bind fun _ _ _ => lockstep_pure he
    exact congrArg some he

theorem lockstep_blockBody (hs : K.Lockstep SameStmt statement statement') (bound : Nat) :
    K.Lockstep SameStmts (blockBody statement bound) (blockBody statement' bound) := by
  induction bound with
  | zero => exact lockstep_unexpected _
  | succ bound ih =>
      refine lockstep_ifAt .rightBrace ?_ ?_
      · exact lockstep_advance.bind fun _ _ _ => lockstep_pure rfl
      · refine lockstep_peek.bind fun t u htu => ?_
        rw [htu.isEnd_eq]
        cases u.isEnd with
        | true => exact lockstep_unexpected _
        | false =>
            exact hs.bind fun s s' h => ih.bind fun ss ss' hss => lockstep_pure (h.cons hss)

/-- What follows the condition of an `if`. -/
theorem lockstep_branches (hs : K.Lockstep SameStmt statement statement') {e e' : Expr}
    (he : SameExpr e e') (l l' : Location) :
    K.Lockstep SameStmt
      (do
        let body ← statement
        if ← at? .else_ then
          advance
          return .ifElse l e body (← statement)
        else return .ifThen l e body)
      (do
        let body ← statement'
        if ← at? .else_ then
          advance
          return .ifElse l' e' body (← statement')
        else return .ifThen l' e' body) := by
  unfold SameExpr at he
  refine hs.bind fun a a' ha => ?_
  unfold SameStmt at ha
  refine lockstep_ifAt .else_ ?_ (lockstep_pure ?_)
  · refine lockstep_advance.bind fun _ _ _ => hs.bind fun b b' hb => lockstep_pure ?_
    unfold SameStmt at hb ⊢
    rw [Stmt.outline, Stmt.outline, he, ha, hb]
  · unfold SameStmt
    rw [Stmt.outline, Stmt.outline, he, ha]

/-- The clauses and the body of a `for`. -/
theorem lockstep_clauses (hx : K.Lockstep SameExpr expression expression')
    (hs : K.Lockstep SameStmt statement statement') (l l' : Location) :
    K.Lockstep SameStmt
      (do
        expect .leftParen
        let i ← clause expression .semicolon
        let c ← clause expression .semicolon
        let u ← clause expression .rightParen
        return .for_ l i c u (← statement))
      (do
        expect .leftParen
        let i ← clause expression' .semicolon
        let c ← clause expression' .semicolon
        let u ← clause expression' .rightParen
        return .for_ l' i c u (← statement')) := by
  refine (lockstep_expect _).bind fun _ _ _ => (lockstep_clause hx _).bind fun i i' hi =>
    (lockstep_clause hx _).bind fun c c' hc => (lockstep_clause hx _).bind fun u u' hu =>
      hs.bind fun a a' ha => lockstep_pure ?_
  unfold SameClause at hi hc hu
  unfold SameStmt at ha ⊢
  rw [Stmt.outline, Stmt.outline, hi, hc, hu, ha]

/-- An expression up to a semicolon, made into a statement. -/
theorem lockstep_simple (hx : K.Lockstep SameExpr expression expression') {f g : Expr → Stmt}
    (hfg : ∀ e e', SameExpr e e' → SameStmt (f e) (g e')) :
    K.Lockstep SameStmt
      (do
        let value ← expression
        expect .semicolon
        return f value)
      (do
        let value ← expression'
        expect .semicolon
        return g value) :=
  hx.bind fun e e' he => (lockstep_expect _).bind fun _ _ _ => lockstep_pure (hfg e e' he)

theorem lockstep_statementForm (hx : K.Lockstep SameExpr expression expression')
    (hs : K.Lockstep SameStmt statement statement') (bound : Nat) :
    K.Lockstep SameStmt (statementForm bound expression statement)
      (statementForm bound expression' statement') := by
  have hexpr : ∀ l l' e e', SameExpr e e' → SameStmt (.expr l e) (.expr l' e') :=
    fun _ _ _ _ he => congrArg (Stmt.expr Location.nowhere) he
  refine lockstep_peek.bind fun t u htu => ?_
  cases htu with
  | endOfInput | number | identifier => exact lockstep_simple hx (hexpr _ _)
  | symbol s text text' l l' =>
      cases s
      case return_ =>
        exact lockstep_advance.bind fun _ _ _ => lockstep_simple hx fun _ _ he =>
          congrArg (Stmt.ret Location.nowhere) he
      case if_ =>
        exact lockstep_advance.bind fun _ _ _ => (lockstep_condition hx).bind fun e e' he =>
          lockstep_branches hs he l l'
      case while_ =>
        refine lockstep_advance.bind fun _ _ _ => (lockstep_condition hx).bind fun e e' he =>
          hs.bind fun a a' ha => lockstep_pure ?_
        exact congrArg₂ (Stmt.while_ Location.nowhere) he ha
      case for_ => exact lockstep_advance.bind fun _ _ _ => lockstep_clauses hx hs l l'
      case leftBrace =>
        refine lockstep_advance.bind fun _ _ _ => (lockstep_blockBody hs bound).bind
          fun ss ss' hss => lockstep_pure ?_
        exact congrArg (Stmt.block Location.nowhere) hss
      all_goals exact lockstep_simple hx (hexpr l l')

theorem lockstep_statement (bound : Nat) :
    K.Lockstep SameStmt (Parse.statement bound) (Parse.statement bound) := by
  induction bound with
  | zero => exact lockstep_unexpected _
  | succ bound ih => exact lockstep_statementForm (lockstep_expression (bound + 1)) ih bound

theorem lockstep_statements (hs : K.Lockstep SameStmt statement statement') (bound : Nat) :
    K.Lockstep SameStmts (statements statement bound) (statements statement' bound) := by
  induction bound with
  | zero => exact lockstep_pure rfl
  | succ bound ih =>
      refine lockstep_peek.bind fun t u htu => ?_
      rw [htu.isEnd_eq]
      cases u.isEnd with
      | true => exact lockstep_pure rfl
      | false => exact hs.bind fun s s' h => ih.bind fun ss ss' hss => lockstep_pure (h.cons hss)

theorem lockstep_program (bound : Nat) (filename filename' : String) :
    K.Lockstep Program.SameOutline (program bound filename) (program bound filename') := by
  refine (lockstep_statements (lockstep_statement bound) bound).bind fun ss ss' hss => ?_
  intro c d hcd
  exact ⟨⟨hss, hcd.slots.size_eq⟩, hcd⟩

end

/-! ## Programs -/

/-- Both lists of tokens are closed by the end of the input, or neither is. -/
theorem ofTokens?_cases (K : Likeness) :
    (Cursor.ofTokens? K.left = none ∧ Cursor.ofTokens? K.right = none) ∨
      ∃ c d, Cursor.ofTokens? K.left = some c ∧ Cursor.ofTokens? K.right = some d ∧
        K.Cursors c d := by
  have halike := K.alike
  cases hl : K.left with
  | nil =>
      rw [hl, List.forall₂_nil_left_iff] at halike
      rw [halike]
      exact Or.inl ⟨rfl, rfl⟩
  | cons t ts =>
      rw [hl] at halike
      obtain ⟨u, us, -, hrest, hr⟩ := List.forall₂_cons_left_iff.mp halike
      rw [hr] at halike
      have hend : ((t :: ts).getLast (by simp)).isEnd = ((u :: us).getLast (by simp)).isEnd := by
        rw [List.getLast_eq_getElem, List.getLast_eq_getElem]
        simp only [List.length_cons, hrest.length_eq]
        exact (halike.get _ _).isEnd_eq
      rw [hr, Cursor.ofTokens?, Cursor.ofTokens?, hend]
      cases ((u :: us).getLast (by simp)).isEnd with
      | false => exact Or.inl ⟨rfl, rfl⟩
      | true => exact Or.inr ⟨_, _, rfl, rfl, ⟨0, hl.symm, hr.symm⟩, .nil⟩

theorem results_parseProgram {c d : Cursor} (h : K.Cursors c d) (filename filename' : String) :
    K.Results Program.SameOutline (c.parseProgram filename) (d.parseProgram filename') := by
  unfold Cursor.parseProgram
  rw [h.nestingBound_eq]
  exact lockstep_program _ filename filename' c d h

/-- Tokens with names that are mapped to names, one to one. -/
def ofRenaming {f : String → String} {tokens tokens' : List Token}
    (hinj : Set.InjOn f {n | n ∈ namesOf tokens})
    (halike : List.Forall₂ (Token.Alike fun n m => f n = m) tokens tokens') : Likeness where
  named n m := n ∈ namesOf tokens ∧ f n = m
  biUnique :=
    ⟨fun _ _ _ hn hm => hinj hn.1 hm.1 (hn.2.trans hm.2.symm), fun _ _ _ hn hm => hn.2.symm.trans hm.2⟩
  left := tokens
  right := tokens'
  alike := by
    have hmem : List.Forall₂ (fun t u => t ∈ tokens ∧ t.Alike (fun n m => f n = m) u)
        tokens tokens' := (List.forall₂_and_left _ _).mpr ⟨fun _ h => h, halike⟩
    refine hmem.imp fun t u ⟨ht, htu⟩ => ?_
    cases htu with
    | endOfInput l l' => exact .endOfInput l l'
    | identifier l l' h => exact .identifier l l' ⟨List.mem_filterMap.mpr ⟨_, ht, rfl⟩, h⟩
    | number value l l' => exact .number value l l'
    | symbol s text text' l l' => exact .symbol s text text' l l'

end Likeness

/-- The lexemes of a loop over two names, all at one place. -/
def countdown (n m : String) (semicolon : String) (l : Location) : List Token :=
  [.symbol .while_ "while", .symbol .leftParen "(", .identifier n, .symbol .rightParen ")",
    .identifier m, .symbol .assign "=", .identifier n, .symbol .assign "=", .identifier n,
    .symbol .minus "-", .number 1, .symbol .semicolon semicolon, .endOfInput].map fun x => ⟨x, l⟩

end StackLang
