import StackLang.Proofs.Outline
import StackLang.Proofs.SlotOrder

/-!
# Trees without places

Two trees are the same up to their places in a text exactly if they become equal once all places
are forgotten. Neither the text of a tree, nor its outline, nor its slots depend on places.
-/

namespace StackLang

open Location (nowhere)

def VarRef.unplaced (r : VarRef) : VarRef :=
  { r with location := nowhere }

/-- The expression with all places forgotten. -/
def Expr.unplaced : Expr → Expr
  | .number _ value => .number nowhere value
  | .var r => .var r.unplaced
  | .binary _ op a b => .binary nowhere op a.unplaced b.unplaced
  | .assign _ r e => .assign nowhere r.unplaced e.unplaced
  | .bare _ => .bare nowhere

mutual

/-- The statement with all places forgotten. -/
def Stmt.unplaced : Stmt → Stmt
  | .expr _ e => .expr nowhere e.unplaced
  | .ret _ e => .ret nowhere e.unplaced
  | .ifThen _ c a => .ifThen nowhere c.unplaced a.unplaced
  | .ifElse _ c a b => .ifElse nowhere c.unplaced a.unplaced b.unplaced
  | .while_ _ c a => .while_ nowhere c.unplaced a.unplaced
  | .for_ _ i c u a =>
    .for_ nowhere (i.map Expr.unplaced) (c.map Expr.unplaced) (u.map Expr.unplaced) a.unplaced
  | .block _ ss => .block nowhere (unplacedAll ss)
  | .bare _ => .bare nowhere

def unplacedAll : List Stmt → List Stmt
  | [] => []
  | s :: ss => s.unplaced :: unplacedAll ss

end

/-! ## Equality up to places -/

theorem VarRef.same_iff {r r' : VarRef} : r.same r' = true ↔ r.unplaced = r'.unplaced := by
  simp [VarRef.same, VarRef.unplaced]

theorem Expr.same_iff {e e' : Expr} : e.same e' = true ↔ e.unplaced = e'.unplaced := by
  induction e generalizing e' with
  | number l value => cases e' <;> simp [Expr.same, Expr.unplaced]
  | var r => cases e' <;> simp [Expr.same, Expr.unplaced, VarRef.same_iff]
  | binary l op a b iha ihb => cases e' <;> simp [Expr.same, Expr.unplaced, iha, ihb, and_assoc]
  | assign l r e ih => cases e' <;> simp [Expr.same, Expr.unplaced, VarRef.same_iff, ih]
  | bare l => cases e' <;> simp [Expr.same, Expr.unplaced]

theorem sameClause_iff {clause clause' : Option Expr} :
    sameClause clause clause' = true ↔
      clause.map Expr.unplaced = clause'.map Expr.unplaced := by
  cases clause <;> cases clause' <;> simp [sameClause, Expr.same_iff]

mutual

theorem Stmt.same_iff : ∀ {s s' : Stmt}, s.same s' = true ↔ s.unplaced = s'.unplaced
  | .expr _ _, s' => by cases s' <;> simp [Stmt.same, Stmt.unplaced, Expr.same_iff]
  | .ret _ _, s' => by cases s' <;> simp [Stmt.same, Stmt.unplaced, Expr.same_iff]
  | .ifThen _ _ a, s' => by
      cases s' <;> simp [Stmt.same, Stmt.unplaced, Expr.same_iff, Stmt.same_iff (s := a)]
  | .ifElse _ _ a b, s' => by
      cases s' <;> simp [Stmt.same, Stmt.unplaced, Expr.same_iff, Stmt.same_iff (s := a),
        Stmt.same_iff (s := b), and_assoc]
  | .while_ _ _ a, s' => by
      cases s' <;> simp [Stmt.same, Stmt.unplaced, Expr.same_iff, Stmt.same_iff (s := a)]
  | .for_ _ _ _ _ a, s' => by
      cases s' <;> simp [Stmt.same, Stmt.unplaced, sameClause_iff, Stmt.same_iff (s := a),
        and_assoc]
  | .block _ ss, s' => by cases s' <;> simp [Stmt.same, Stmt.unplaced, @sameAll_iff ss]
  | .bare _, s' => by cases s' <;> simp [Stmt.same, Stmt.unplaced]

theorem sameAll_iff : ∀ {ss ss' : List Stmt},
    sameAll ss ss' = true ↔ unplacedAll ss = unplacedAll ss'
  | [], ss' => by cases ss' <;> simp [sameAll, unplacedAll]
  | s :: ss, ss' => by
      cases ss' <;> simp [sameAll, unplacedAll, Stmt.same_iff (s := s), @sameAll_iff ss]

end

theorem Program.same_iff {p q : Program} :
    p.same q = true ↔ unplacedAll p.statements = unplacedAll q.statements :=
  sameAll_iff

/-! ## What does not depend on places -/

theorem Expr.text_unplaced (e : Expr) : e.unplaced.text = e.text := by
  induction e with
  | number l value => rfl
  | var r => rfl
  | binary l op a b iha ihb => simp only [unplaced, text, iha, ihb]
  | assign l r e ih =>
      simp only [unplaced, text, ih]
      rfl
  | bare l => rfl

theorem clauseText_unplaced (clause : Option Expr) :
    clauseText (clause.map Expr.unplaced) = clauseText clause := by
  cases clause with
  | none => rfl
  | some e => exact e.text_unplaced

mutual

theorem Stmt.tree_unplaced : ∀ (s : Stmt) (level : Nat), s.unplaced.tree level = s.tree level
  | .expr _ e, _ | .ret _ e, _ => by simp only [Stmt.unplaced, Stmt.tree, e.text_unplaced]
  | .ifThen _ c a, _ => by
      simp only [Stmt.unplaced, Stmt.tree, c.text_unplaced, a.tree_unplaced]
  | .ifElse _ c a b, _ => by
      simp only [Stmt.unplaced, Stmt.tree, c.text_unplaced, a.tree_unplaced, b.tree_unplaced]
  | .while_ _ c a, _ => by
      simp only [Stmt.unplaced, Stmt.tree, c.text_unplaced, a.tree_unplaced]
  | .for_ _ i c u a, _ => by
      simp only [Stmt.unplaced, Stmt.tree, clauseText_unplaced, a.tree_unplaced]
  | .block _ ss, level => congrArg (treeLine level "Block" :: ·) (treeOfAll_unplacedAll ss _)
  | .bare _, _ => rfl

theorem treeOfAll_unplacedAll : ∀ (ss : List Stmt) (level : Nat),
    treeOfAll level (unplacedAll ss) = treeOfAll level ss
  | [], _ => rfl
  | s :: ss, level => by
      simp only [unplacedAll, treeOfAll, s.tree_unplaced, treeOfAll_unplacedAll ss]

end

theorem Expr.outline_unplaced (e : Expr) : e.unplaced.outline = e.outline := by
  induction e with
  | number l value => rfl
  | var r => rfl
  | binary l op a b iha ihb => simp only [unplaced, outline, iha, ihb]
  | assign l r e ih =>
      simp only [unplaced, outline, ih]
      rfl
  | bare l => rfl

theorem outline_unplaced_clause (clause : Option Expr) :
    (clause.map Expr.unplaced).map Expr.outline = clause.map Expr.outline := by
  cases clause with
  | none => rfl
  | some e => exact congrArg some e.outline_unplaced

mutual

theorem Stmt.outline_unplaced : ∀ s : Stmt, s.unplaced.outline = s.outline
  | .expr _ e | .ret _ e => by simp only [Stmt.unplaced, Stmt.outline, e.outline_unplaced]
  | .ifThen _ c a => by
      simp only [Stmt.unplaced, Stmt.outline, c.outline_unplaced, a.outline_unplaced]
  | .ifElse _ c a b => by
      simp only [Stmt.unplaced, Stmt.outline, c.outline_unplaced, a.outline_unplaced,
        b.outline_unplaced]
  | .while_ _ c a => by
      simp only [Stmt.unplaced, Stmt.outline, c.outline_unplaced, a.outline_unplaced]
  | .for_ _ i c u a => by
      simp only [Stmt.unplaced, Stmt.outline, outline_unplaced_clause, a.outline_unplaced]
  | .block _ ss => congrArg (Stmt.block nowhere) (outlineAll_unplacedAll ss)
  | .bare _ => rfl

theorem outlineAll_unplacedAll : ∀ ss : List Stmt,
    outlineAll (unplacedAll ss) = outlineAll ss
  | [] => rfl
  | s :: ss => by
      simp only [unplacedAll, outlineAll, s.outline_unplaced, outlineAll_unplacedAll ss]

end

theorem Expr.refs_unplaced (e : Expr) : e.unplaced.refs = e.refs.map VarRef.unplaced := by
  induction e with
  | number l value => rfl
  | var r => rfl
  | binary l op a b iha ihb => simp only [unplaced, refs, iha, ihb, List.map_append]
  | assign l r e ih => simp only [unplaced, refs, ih, List.map_cons]
  | bare l => rfl

theorem clauseRefs_unplaced (clause : Option Expr) :
    clauseRefs (clause.map Expr.unplaced) = (clauseRefs clause).map VarRef.unplaced := by
  cases clause with
  | none => rfl
  | some e => exact e.refs_unplaced

mutual

theorem Stmt.refs_unplaced : ∀ s : Stmt, s.unplaced.refs = s.refs.map VarRef.unplaced
  | .expr _ e | .ret _ e => e.refs_unplaced
  | .ifThen _ c a => by
      simp only [Stmt.unplaced, Stmt.refs, c.refs_unplaced, a.refs_unplaced, List.map_append]
  | .ifElse _ c a b => by
      simp only [Stmt.unplaced, Stmt.refs, c.refs_unplaced, a.refs_unplaced, b.refs_unplaced,
        List.map_append]
  | .while_ _ c a => by
      simp only [Stmt.unplaced, Stmt.refs, c.refs_unplaced, a.refs_unplaced, List.map_append]
  | .for_ _ i c u a => by
      simp only [Stmt.unplaced, Stmt.refs, clauseRefs_unplaced, a.refs_unplaced, List.map_append]
  | .block _ ss => refsAll_unplacedAll ss
  | .bare _ => rfl

theorem refsAll_unplacedAll : ∀ ss : List Stmt,
    refsAll (unplacedAll ss) = (refsAll ss).map VarRef.unplaced
  | [] => rfl
  | s :: ss => by
      simp only [unplacedAll, refsAll, s.refs_unplaced, refsAll_unplacedAll ss, List.map_append]

end

end StackLang
