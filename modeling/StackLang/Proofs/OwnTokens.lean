import StackLang.Proofs.Grammar
import StackLang.Proofs.Nodes

/-!
# The tokens of the nodes

A tree that is derived from tokens has its nodes from them, token by token: a node has a token of
its own, of the class that calls for such a node. The zero from which a minus sign subtracts is the
one node without, as it comes from the token of the subtraction.
-/

namespace StackLang.Grammar

variable (place : String → Int)

/-- The token is the one that calls for the node. -/
inductive Owns : Token → Node → Prop where
  | number {t v} : t.lexeme = .number v → Owns t (.expr (.number t.location v))
  | name {t n} : t.lexeme = .identifier n → Owns t (.expr (.var ⟨t.location, n, place n⟩))
  | operator {t s rank a b e} : t.kind = .symbol s → Joins rank s a b e → Owns t (.expr e)
  | assignment {t l ref e} : t.kind = .symbol .assign → Owns t (.expr (.assign l ref e))
  | expr {t l e} : t.kind = .symbol .semicolon → Owns t (.stmt (.expr l e))
  | ret {t e} : t.kind = .symbol .return_ → Owns t (.stmt (.ret t.location e))
  | ifThen {t c a} : t.kind = .symbol .if_ → Owns t (.stmt (.ifThen t.location c a))
  | ifElse {t c a b} : t.kind = .symbol .if_ → Owns t (.stmt (.ifElse t.location c a b))
  | while_ {t c a} : t.kind = .symbol .while_ → Owns t (.stmt (.while_ t.location c a))
  | for_ {t i c u a} : t.kind = .symbol .for_ → Owns t (.stmt (.for_ t.location i c u a))
  | block {t ss} : t.kind = .symbol .leftBrace → Owns t (.stmt (.block t.location ss))

/-- What a token adds to a tree: a node of its own, if any, and for a minus sign before an operand
two, the subtraction and the zero it subtracts from. -/
inductive Adds : Token → List Node → Prop where
  | nothing {t s} : t.kind = .symbol s → Adds t []
  | node {t n} : Owns place t n → Adds t [n]
  | sign {t e} : t.kind = .symbol .minus →
      Adds t [.expr (.binary t.location .sub (.number t.location 0) e),
        .expr (.number t.location 0)]

/-- The nodes are, in some order, what the tokens add, each of them once. -/
def MadeOf (ts : List Token) (ns : List Node) : Prop :=
  ∃ added, List.Forall₂ (Adds place) ts added ∧ added.flatten.Perm ns

variable {place}

namespace MadeOf

theorem nil : MadeOf place [] [] :=
  ⟨[], .nil, .refl _⟩

theorem perm {ts : List Token} {ms ns : List Node} (h : MadeOf place ts ms) (hp : ms.Perm ns) :
    MadeOf place ts ns := by
  obtain ⟨added, hadds, hflat⟩ := h
  exact ⟨added, hadds, hflat.trans hp⟩

theorem cons {t : Token} {ts : List Token} {ms ns : List Node} (ht : Adds place t ms)
    (h : MadeOf place ts ns) : MadeOf place (t :: ts) (ms ++ ns) := by
  obtain ⟨added, hadds, hflat⟩ := h
  exact ⟨ms :: added, .cons ht hadds, hflat.append_left ms⟩

theorem append {ts us : List Token} {ms ns : List Node} (h₁ : MadeOf place ts ms)
    (h₂ : MadeOf place us ns) : MadeOf place (ts ++ us) (ms ++ ns) := by
  obtain ⟨added₁, hadds₁, hflat₁⟩ := h₁
  obtain ⟨added₂, hadds₂, hflat₂⟩ := h₂
  refine ⟨added₁ ++ added₂, List.rel_append hadds₁ hadds₂, ?_⟩
  rw [List.flatten_append]
  exact hflat₁.append hflat₂

/-- A token that adds nothing. -/
theorem skip {t : Token} {s : Symbol} {ts : List Token} {ns : List Node} (ht : t.kind = .symbol s)
    (h : MadeOf place ts ns) : MadeOf place (t :: ts) ns :=
  cons (.nothing ht) h

theorem optionalPlus {sign ts : List Token} {ns : List Node}
    (hsign : OptionalPlus (sign.map Token.kind)) (h : MadeOf place ts ns) :
    MadeOf place (sign ++ ts) ns := by
  rcases hsign with hnone | hplus
  · rw [List.map_eq_nil_iff.mp hnone]
    exact h
  · obtain ⟨t, rfl, ht⟩ := List.map_eq_singleton_iff.mp hplus
    exact h.skip ht

end MadeOf

/-- The operands of `>` and `>=` change places. -/
theorem Joins.perm_nodes {rank : Rank} {s : Symbol} {a b e : Expr} (h : Joins rank s a b e) :
    (a.nodes ++ .expr e :: b.nodes).Perm e.nodes := by
  refine List.perm_middle.trans ?_
  cases h with
  | gt | ge =>
      simp only [Expr.nodes, Expr.parts, List.map_cons, List.map_append]
      exact List.perm_append_comm.cons _
  | mul | div | add | sub | lt | le | eq | ne =>
      simp only [Expr.nodes, Expr.parts, List.map_cons, List.map_append]
      exact .refl _

theorem DerivesTarget.madeOf {ts : List Token} {ref : VarRef} (h : DerivesTarget place ts ref) :
    MadeOf place ts [.expr (.var ref)] := by
  induction h with
  | name hsign ht => exact (MadeOf.cons (.node (.name ht)) .nil).optionalPlus hsign
  | parentheses hsign hl _ hr ih => exact ((ih.append (.skip hr .nil)).skip hl).optionalPlus hsign

theorem DerivesExpr.madeOf {form : Form} {ts : List Token} {e : Expr}
    (h : DerivesExpr place form ts e) : MadeOf place ts e.nodes := by
  induction h with
  | number ht => exact .cons (.node (.number ht)) .nil
  | name ht => exact .cons (.node (.name ht)) .nil
  | parentheses hl _ hr ih =>
      have hinner := (ih.append (.skip hr .nil)).skip hl
      rwa [List.append_nil] at hinner
  | unsigned _ ih | operand _ ih | equality _ ih => exact ih
  | plus ht _ ih => exact ih.skip ht
  | minus ht _ ih => exact .cons (.sign ht) ih
  | operator _ ht _ hjoins iha ihb =>
      exact (iha.append (.cons (.node (.operator ht hjoins)) ihb)).perm hjoins.perm_nodes
  | assignment htarget ht _ ih =>
      exact (htarget.madeOf.append (.cons (.node (.assignment ht)) ih)).perm (.swap _ _ _)

theorem DerivesClause.madeOf {ts : List Token} {clause : Option Expr}
    (h : DerivesClause place ts clause) : MadeOf place ts (clauseNodes clause) := by
  cases h with
  | absent => exact .nil
  | present he => exact he.madeOf

mutual

theorem DerivesStmt.madeOf : ∀ {ts : List Token} {s : Stmt}, DerivesStmt place ts s →
    MadeOf place ts s.nodes
  | _, _, .expr he hs =>
      (he.madeOf.append (.cons (.node (.expr hs)) .nil)).perm (List.perm_append_singleton _ _)
  | _, _, .ret ht he hs => by
      have hparts := he.madeOf.append (.skip hs .nil)
      rw [List.append_nil] at hparts
      exact .cons (.node (.ret ht)) hparts
  | _, _, .ifThen ht hl hc hr ha =>
      .cons (.node (.ifThen ht)) ((hc.madeOf.append (ha.madeOf.skip hr)).skip hl)
  | _, _, .ifElse ht hl hc hr ha he hb =>
      .cons (.node (.ifElse ht))
        ((hc.madeOf.append ((ha.madeOf.append (hb.madeOf.skip he)).skip hr)).skip hl)
  | _, _, .while_ ht hl hc hr ha =>
      .cons (.node (.while_ ht)) ((hc.madeOf.append (ha.madeOf.skip hr)).skip hl)
  | _, _, .for_ ht hl hi hm hc hn hu hr ha => by
      have htail := (hu.madeOf.append (ha.madeOf.skip hr)).perm List.perm_append_comm
      exact .cons (.node (.for_ ht))
        ((hi.madeOf.append ((hc.madeOf.append (htail.skip hn)).skip hm)).skip hl)
  | _, _, .block hl hss hr => by
      have hparts := hss.madeOf.append (.skip hr .nil)
      rw [List.append_nil] at hparts
      exact .cons (.node (.block hl)) hparts

theorem DerivesProgram.madeOf : ∀ {ts : List Token} {ss : List Stmt}, DerivesProgram place ts ss →
    MadeOf place ts (nodesAll ss)
  | _, _, .nil => .nil
  | _, _, .cons hs hss => hs.madeOf.append hss.madeOf

end

end StackLang.Grammar
