import StackLang.Proofs.SlotOrder

/-!
# Trees moved elsewhere

A derivation depends on neither the places of its tokens nor the slots of their names. Tokens that
are moved derive the tree moved along, over whatever slots their names have there, and derivations
one after the other make up one derivation.
-/

namespace StackLang

variable (move : Location → Location) (place : String → Int)

/-! ## Tokens and trees -/

def Token.moved (t : Token) : Token :=
  { t with location := move t.location }

/-- The use at its new place, with the slot that its name has there. -/
def VarRef.relocated (r : VarRef) : VarRef :=
  ⟨move r.location, r.name, place r.name⟩

def Expr.relocated : Expr → Expr
  | .number l value => .number (move l) value
  | .var r => .var (r.relocated move place)
  | .binary l op a b => .binary (move l) op a.relocated b.relocated
  | .assign l r e => .assign (move l) (r.relocated move place) e.relocated
  | .bare l => .bare (move l)

mutual

def Stmt.relocated : Stmt → Stmt
  | .expr l e => .expr (move l) (e.relocated move place)
  | .ret l e => .ret (move l) (e.relocated move place)
  | .ifThen l c a => .ifThen (move l) (c.relocated move place) a.relocated
  | .ifElse l c a b => .ifElse (move l) (c.relocated move place) a.relocated b.relocated
  | .while_ l c a => .while_ (move l) (c.relocated move place) a.relocated
  | .for_ l i c u a =>
    .for_ (move l) (i.map (Expr.relocated move place)) (c.map (Expr.relocated move place))
      (u.map (Expr.relocated move place)) a.relocated
  | .block l ss => .block (move l) (relocatedAll ss)
  | .bare l => .bare (move l)

def relocatedAll : List Stmt → List Stmt
  | [] => []
  | s :: ss => s.relocated :: relocatedAll ss

end

@[simp] theorem Token.lexeme_moved (t : Token) : (t.moved move).lexeme = t.lexeme := rfl

@[simp] theorem Token.location_moved (t : Token) : (t.moved move).location = move t.location := rfl

@[simp] theorem Token.kind_moved (t : Token) : (t.moved move).kind = t.kind := rfl

theorem kinds_moved (ts : List Token) :
    (ts.map (Token.moved move)).map Token.kind = ts.map Token.kind := by
  rw [List.map_map]
  rfl

theorem namesOf_moved (ts : List Token) : namesOf (ts.map (Token.moved move)) = namesOf ts := by
  rw [namesOf, List.filterMap_map]
  rfl

theorem Expr.location_relocated (e : Expr) :
    (e.relocated move place).location = move e.location := by
  cases e <;> rfl

/-! ## Derivations -/

namespace Grammar

variable {move place} {place' : String → Int}

theorem Joins.relocated {rank : Rank} {s : Symbol} {a b e : Expr} (h : Joins rank s a b e) :
    Joins rank s (a.relocated move place) (b.relocated move place) (e.relocated move place) := by
  cases h <;> simp only [Expr.relocated, ← Expr.location_relocated move place] <;> constructor

theorem DerivesTarget.relocated {ts : List Token} {r : VarRef} (h : DerivesTarget place' ts r) :
    DerivesTarget place (ts.map (Token.moved move)) (r.relocated move place) := by
  induction h with
  | name hsign ht =>
      rw [List.map_append]
      exact .name (by rwa [kinds_moved]) ht
  | parentheses hsign hl _ hr ih =>
      rw [List.map_append, List.map_cons, List.map_append]
      exact .parentheses (by rwa [kinds_moved]) hl ih hr

theorem DerivesExpr.relocated {form : Form} {ts : List Token} {e : Expr}
    (h : DerivesExpr place' form ts e) :
    DerivesExpr place form (ts.map (Token.moved move)) (e.relocated move place) := by
  induction h with
  | @number t v ht => exact @DerivesExpr.number place (t.moved move) v ht
  | @name t n ht => exact @DerivesExpr.name place (t.moved move) n ht
  | parentheses hl _ hr ih =>
      rw [List.map_cons, List.map_append]
      exact .parentheses hl ih hr
  | unsigned _ ih => exact .unsigned ih
  | plus ht _ ih => exact .plus ht ih
  | @minus t _ _ ht _ ih =>
      exact @DerivesExpr.minus place (t.moved move) _ _ ht ih
  | operand _ ih => exact .operand ih
  | operator _ ht _ hj iha ihb =>
      rw [List.map_append, List.map_cons]
      exact .operator iha ht ihb hj.relocated
  | equality _ ih => exact .equality ih
  | assignment htarget ht _ ih =>
      rw [List.map_append, List.map_cons]
      exact .assignment htarget.relocated ht ih

theorem DerivesClause.relocated {ts : List Token} {clause : Option Expr}
    (h : DerivesClause place' ts clause) :
    DerivesClause place (ts.map (Token.moved move)) (clause.map (Expr.relocated move place)) := by
  cases h with
  | absent => exact .absent
  | present he => exact .present he.relocated

mutual

theorem DerivesStmt.relocated {ts : List Token} {s : Stmt} (h : DerivesStmt place' ts s) :
    DerivesStmt place (ts.map (Token.moved move)) (s.relocated move place) := by
  cases h with
  | @expr t ts e s he hs =>
      rw [List.map_cons, List.map_append, Stmt.relocated]
      exact @DerivesStmt.expr place (t.moved move) _ _ _ he.relocated hs
  | @ret t ts e s ht he hs =>
      rw [List.map_cons, List.map_append, Stmt.relocated]
      exact @DerivesStmt.ret place (t.moved move) _ _ _ ht he.relocated hs
  | @ifThen t l ts c r us a ht hl hc hr ha =>
      rw [List.map_cons, List.map_cons, List.map_append, List.map_cons, Stmt.relocated]
      exact @DerivesStmt.ifThen place (t.moved move) _ _ _ _ _ _ ht hl hc.relocated hr ha.relocated
  | @ifElse t l ts c r us a e vs b ht hl hc hr ha he hb =>
      rw [List.map_cons, List.map_cons, List.map_append, List.map_cons, List.map_append,
        List.map_cons, Stmt.relocated]
      exact @DerivesStmt.ifElse place (t.moved move) _ _ _ _ _ _ _ _ _ ht hl hc.relocated hr
        ha.relocated he hb.relocated
  | @while_ t l ts c r us a ht hl hc hr ha =>
      rw [List.map_cons, List.map_cons, List.map_append, List.map_cons, Stmt.relocated]
      exact @DerivesStmt.while_ place (t.moved move) _ _ _ _ _ _ ht hl hc.relocated hr ha.relocated
  | @for_ t l is i m cs c n us u r vs a ht hl hi hm hc hn hu hr ha =>
      rw [List.map_cons, List.map_cons, List.map_append, List.map_cons, List.map_append,
        List.map_cons, List.map_append, List.map_cons, Stmt.relocated]
      exact @DerivesStmt.for_ place (t.moved move) _ _ _ _ _ _ _ _ _ _ _ _ ht hl hi.relocated hm
        hc.relocated hn hu.relocated hr ha.relocated
  | @block l ts ss r hl hss hr =>
      rw [List.map_cons, List.map_append, Stmt.relocated]
      exact @DerivesStmt.block place (l.moved move) _ _ _ hl hss.relocated hr

theorem DerivesProgram.relocated {ts : List Token} {ss : List Stmt}
    (h : DerivesProgram place' ts ss) :
    DerivesProgram place (ts.map (Token.moved move)) (relocatedAll move place ss) := by
  cases h with
  | nil => exact .nil
  | cons hs hss =>
      rw [List.map_append, relocatedAll]
      exact .cons hs.relocated hss.relocated

end

theorem DerivesProgram.append {ts us : List Token} {ss rr : List Stmt} :
    DerivesProgram place ts ss → DerivesProgram place us rr →
      DerivesProgram place (ts ++ us) (ss ++ rr)
  | .nil, h => h
  | .cons hs hss, h => by
      rw [List.append_assoc, List.cons_append]
      exact .cons hs (hss.append h)

end Grammar

/-! ## The nearest `if` -/

theorem Stmt.endsOpen_relocated : ∀ s : Stmt, (s.relocated move place).EndsOpen ↔ s.EndsOpen
  | .ifThen _ _ _ => Iff.rfl
  | .ifElse _ _ _ b => endsOpen_relocated b
  | .while_ _ _ a => endsOpen_relocated a
  | .for_ _ _ _ _ a => endsOpen_relocated a
  | .expr _ _ | .ret _ _ | .block _ _ | .bare _ => Iff.rfl

mutual

theorem Stmt.nearestElse_relocated :
    ∀ s : Stmt, (s.relocated move place).NearestElse ↔ s.NearestElse
  | .ifThen _ _ a => a.nearestElse_relocated
  | .ifElse _ _ a b =>
      and_congr (not_congr (a.endsOpen_relocated move place))
        (and_congr a.nearestElse_relocated b.nearestElse_relocated)
  | .while_ _ _ a => a.nearestElse_relocated
  | .for_ _ _ _ _ a => a.nearestElse_relocated
  | .block _ ss => allNearestElse_relocatedAll ss
  | .expr _ _ | .ret _ _ | .bare _ => Iff.rfl

theorem allNearestElse_relocatedAll :
    ∀ ss : List Stmt, AllNearestElse (relocatedAll move place ss) ↔ AllNearestElse ss
  | [] => Iff.rfl
  | s :: ss => and_congr s.nearestElse_relocated (allNearestElse_relocatedAll ss)

end

theorem allNearestElse_append {ss rr : List Stmt} :
    AllNearestElse (ss ++ rr) ↔ AllNearestElse ss ∧ AllNearestElse rr := by
  induction ss with
  | nil => rw [List.nil_append, AllNearestElse, true_and]
  | cons s ss ih =>
      rw [List.cons_append, AllNearestElse, AllNearestElse, ih, and_assoc]

end StackLang
