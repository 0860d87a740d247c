import StackLang.Proofs.ParseProgram

/-!
# Looking no further than the cursor

A reader sees the tokens up to its cursor and none behind it. So on two lists that begin with the
same tokens it does the same, as long as its cursor is among them: it yields the same value or fails
for the same reason, at the same place.
-/

namespace StackLang

/-- The cursor at which a reader stopped, whether it succeeded or failed. -/
def endCursor {α : Type} : EStateM.Result ParseFault Cursor α → Cursor
  | .ok _ c => c
  | .error _ c => c

namespace Cursor

/-- At most as many tokens as in `A` are ahead. -/
def Beyond (A : List Token) (c : Cursor) : Prop :=
  c.rest.length ≤ A.length

/-- Cursors at the same of some tokens that two lists share, before they go on as `A` and as `B`. -/
structure Shared (A B : List Token) (c d : Cursor) : Prop where
  ahead : ∃ t ts, c.rest = t :: ts ++ A ∧ d.rest = t :: ts ++ B
  slots : c.slots = d.slots
  left : c.Closed
  right : d.Closed

variable {A B : List Token} {c d : Cursor}

theorem Closed.advance (hc : c.Closed) (h : c.current.isEnd = false) : c.advance.Closed := by
  have hrest := rest_advance hc h
  obtain ⟨t, hmem, hend⟩ := hc
  rw [hrest, List.mem_cons] at hmem
  rcases hmem with rfl | hmem
  · rw [h] at hend
    cases hend
  · exact ⟨t, hmem, hend⟩

theorem Beyond.advance (h : c.Beyond A) : c.advance.Beyond A := by
  unfold Cursor.advance
  split
  · exact h
  · split
    · exact h
    · next t ts hl =>
      refine le_trans ?_ h
      simp [rest, hl]

theorem Shared.current (h : Shared A B c d) : c.current = d.current := by
  obtain ⟨t, ts, hc, hd⟩ := h.ahead
  rw [show c.current = t from (List.cons.inj hc).1, show d.current = t from (List.cons.inj hd).1]

/-- Both cursors move on together, until the first has passed what they share. -/
theorem Shared.advance (h : Shared A B c d) :
    Shared A B c.advance d.advance ∨ c.advance.Beyond A := by
  have hcurrent := h.current
  cases hend : c.current.isEnd with
  | true =>
      have hend' : d.current.isEnd = true := hcurrent ▸ hend
      left
      simpa [Cursor.advance, hend, hend'] using h
  | false =>
      have hend' : d.current.isEnd = false := hcurrent ▸ hend
      obtain ⟨t, ts, hc, hd⟩ := h.ahead
      have hrestc : c.advance.rest = ts ++ A :=
        (List.cons.inj ((rest_advance h.left hend).symm.trans hc)).2
      have hrestd : d.advance.rest = ts ++ B :=
        (List.cons.inj ((rest_advance h.right hend').symm.trans hd)).2
      cases ts with
      | nil =>
          right
          rw [Beyond, hrestc]
          exact le_rfl
      | cons u us =>
          left
          exact ⟨⟨u, us, hrestc, hrestd⟩, by simpa using h.slots, h.left.advance hend,
            h.right.advance hend'⟩

end Cursor

namespace Parse

open Cursor

section

variable (A B : List Token)

/-- Both readers did the same, unless the first one has passed what the lists share. -/
inductive Outcome {α : Type} :
    EStateM.Result ParseFault Cursor α → EStateM.Result ParseFault Cursor α → Prop where
  | ok {a : α} {c d : Cursor} : Shared A B c d → Outcome (.ok a c) (.ok a d)
  | error {f : ParseFault} {c d : Cursor} : Shared A B c d → Outcome (.error f c) (.error f d)
  | beyond {x y : EStateM.Result ParseFault Cursor α} : (endCursor x).Beyond A → Outcome x y

/-- The reader does not go back, and does the same on both lists while it is in what they share. -/
structure Local {α : Type} (x : Parse α) : Prop where
  onward : ∀ c, c.Beyond A → (endCursor (x c)).Beyond A
  agrees : ∀ c d, Shared A B c d → Outcome A B (x c) (x d)

end

variable {A B : List Token}

section

variable {α β : Type}

theorem local_pure (a : α) : Local A B (pure a) where
  onward := fun _ h => h
  agrees := fun _ _ h => .ok h

theorem local_throw (f : ParseFault) : Local A B (throw f : Parse α) where
  onward := fun _ h => h
  agrees := fun _ _ h => .error h

theorem Local.bind {x : Parse α} {f : α → Parse β} (hx : Local A B x)
    (hf : ∀ a, Local A B (f a)) : Local A B (x >>= f) where
  onward := by
    intro c hc
    have hfirst := hx.onward c hc
    change (endCursor (EStateM.bind x f c)).Beyond A
    unfold EStateM.bind
    cases hrun : x c with
    | ok a c' =>
        rw [hrun] at hfirst
        exact (hf a).onward c' hfirst
    | error fault c' =>
        rw [hrun] at hfirst
        exact hfirst
  agrees := by
    intro c d hcd
    have hfirst := hx.agrees c d hcd
    change Outcome A B (EStateM.bind x f c) (EStateM.bind x f d)
    unfold EStateM.bind
    generalize x c = r at hfirst ⊢
    generalize x d = r' at hfirst ⊢
    cases hfirst with
    | ok h => exact (hf _).agrees _ _ h
    | error h => exact .error h
    | beyond h =>
        refine .beyond ?_
        cases r with
        | ok a c' => exact (hf a).onward c' h
        | error fault c' => exact h

theorem Local.map {x : Parse α} (hx : Local A B x) (f : α → β) : Local A B (f <$> x) := by
  rw [map_eq_pure_bind]
  exact hx.bind fun a => local_pure (f a)

theorem local_peek : Local A B peek where
  onward := fun _ h => h
  agrees := by
    intro c d h
    rw [peek_eq, peek_eq, h.current]
    exact .ok h

theorem local_advance : Local A B advance where
  onward := fun _ h => h.advance
  agrees := by
    intro c d h
    rw [advance_eq, advance_eq]
    rcases h.advance with h | h
    · exact .ok h
    · exact .beyond h

theorem local_unexpected (expected : Expected) : Local A B (unexpected expected : Parse α) :=
  local_peek.bind fun _ => local_throw _

theorem local_at? (s : Symbol) : Local A B (at? s) :=
  local_peek.bind fun _ => local_pure _

/-- Readers that ask first whether a symbol is ahead. -/
theorem local_ifAt (s : Symbol) {x y : Parse α} (hx : Local A B x) (hy : Local A B y) :
    Local A B (do if ← at? s then x else y) := by
  refine (local_at? s).bind fun found => ?_
  cases found with
  | true => exact hx
  | false => exact hy

theorem local_expect (s : Symbol) : Local A B (expect s) :=
  local_ifAt s local_advance (local_unexpected _)

theorem local_declare (name : String) : Local A B (declare name) where
  onward := fun _ h => h
  agrees := by
    intro c d h
    have hrun : ∀ e : Cursor, declare name e =
        .ok (e.slots.declare name).1 { e with slots := (e.slots.declare name).2 } := fun _ => rfl
    rw [hrun, hrun, h.slots]
    exact .ok ⟨h.ahead, rfl, h.left, h.right⟩

end

/-! ## Expressions -/

section

variable {expression operand : Parse Expr}

theorem local_primary (hx : Local A B expression) : Local A B (primary expression) := by
  refine local_peek.bind fun token => ?_
  split
  · exact local_advance.bind fun _ => local_pure _
  · exact local_advance.bind fun _ => (local_declare _).bind fun _ => local_pure _
  · exact local_advance.bind fun _ => hx.bind fun _ => (local_expect _).bind fun _ => local_pure _
  · exact local_unexpected _

theorem local_unary (hx : Local A B expression) : Local A B (unary expression) := by
  have hprimary := local_primary hx
  refine local_peek.bind fun token => ?_
  split
  · exact local_advance.bind fun _ => hprimary
  · exact local_advance.bind fun _ => hprimary.bind fun _ => local_pure _
  · exact hprimary

theorem local_chainFrom (ho : Local A B operand) (level : Level) (bound : Nat) (left : Expr) :
    Local A B (chainFrom operand level bound left) := by
  induction bound generalizing left with
  | zero => exact local_pure left
  | succ bound ih =>
      refine local_peek.bind fun token => ?_
      split
      · exact local_pure left
      · exact local_advance.bind fun _ => ho.bind fun right => ih _

theorem local_chain (ho : Local A B operand) (bound : Nat) (level : Level) :
    Local A B (chain bound level operand) :=
  ho.bind fun left => local_chainFrom ho level bound left

theorem local_equality (hx : Local A B expression) (bound : Nat) :
    Local A B (equality bound expression) :=
  local_chain (local_chain (local_chain (local_chain (local_unary hx) bound _) bound _) bound _)
    bound _

theorem local_assignment (hx : Local A B expression) (bound : Nat) :
    Local A B (assignment bound expression) := by
  refine local_peek.bind fun start => (local_equality hx bound).bind fun e => ?_
  refine local_ifAt .assign ?_ (local_pure e)
  split
  · exact local_advance.bind fun _ => hx.bind fun _ => local_pure _
  · exact local_throw _

end

theorem local_expression (bound : Nat) : Local A B (expression bound) := by
  induction bound with
  | zero => exact local_unexpected _
  | succ bound ih => exact local_assignment ih bound

/-! ## Statements -/

section

variable {expression : Parse Expr} {statement : Parse Stmt}

theorem local_condition (hx : Local A B expression) : Local A B (condition expression) :=
  (local_expect _).bind fun _ => hx.bind fun _ => (local_expect _).bind fun _ => local_pure _

theorem local_clause (hx : Local A B expression) (close : Symbol) :
    Local A B (clause expression close) := by
  refine (local_at? close).bind fun found => ?_
  have hclose : ∀ e : Option Expr, Local A B (do
      expect close
      return e : Parse (Option Expr)) :=
    fun e => (local_expect close).bind fun _ => local_pure e
  cases found with
  | true => exact (local_pure none).bind hclose
  | false => exact (hx.map some).bind hclose

theorem local_blockBody (hs : Local A B statement) (bound : Nat) :
    Local A B (blockBody statement bound) := by
  induction bound with
  | zero => exact local_unexpected _
  | succ bound ih =>
      refine local_ifAt _ (local_advance.bind fun _ => local_pure _) ?_
      refine local_peek.bind fun token => ?_
      split
      · exact local_unexpected _
      · exact hs.bind fun _ => ih.bind fun _ => local_pure _

theorem local_statements (hs : Local A B statement) (bound : Nat) :
    Local A B (statements statement bound) := by
  induction bound with
  | zero => exact local_pure _
  | succ bound ih =>
      refine local_peek.bind fun token => ?_
      split
      · exact local_pure _
      · exact hs.bind fun _ => ih.bind fun _ => local_pure _

theorem local_statementForm (hx : Local A B expression) (hs : Local A B statement)
    (bound : Nat) : Local A B (statementForm bound expression statement) := by
  refine local_peek.bind fun token => ?_
  split
  · exact local_advance.bind fun _ => hx.bind fun _ =>
      (local_expect _).bind fun _ => local_pure _
  · refine local_advance.bind fun _ => (local_condition hx).bind fun _ => hs.bind fun _ => ?_
    exact local_ifAt _ (local_advance.bind fun _ => hs.bind fun _ => local_pure _) (local_pure _)
  · exact local_advance.bind fun _ => (local_condition hx).bind fun _ =>
      hs.bind fun _ => local_pure _
  · exact local_advance.bind fun _ => (local_expect _).bind fun _ =>
      (local_clause hx _).bind fun _ => (local_clause hx _).bind fun _ =>
      (local_clause hx _).bind fun _ => hs.bind fun _ => local_pure _
  · exact local_advance.bind fun _ => (local_blockBody hs bound).bind fun _ => local_pure _
  · exact hx.bind fun _ => (local_expect _).bind fun _ => local_pure _

end

theorem local_statement (bound : Nat) : Local A B (statement bound) := by
  induction bound with
  | zero => exact local_unexpected _
  | succ bound ih => exact local_statementForm (local_expression _) ih bound

/-- A program that fails before the lists part fails on the other list as well. -/
theorem program_fails {bound : Nat} {filename : String} {c c' d : Cursor} {fault : ParseFault}
    (h : Shared A B c d) (hfail : program bound filename c = .error fault c')
    (hc' : ¬ c'.Beyond A) : ∃ d', program bound filename d = .error fault d' := by
  have hlocal := (local_statements (local_statement (A := A) (B := B) bound) bound).agrees c d h
  unfold program at hfail ⊢
  rcases bind_error_iff.mp hfail with hrun | ⟨body, e, hrun, hlast⟩
  · rw [hrun] at hlocal
    generalize hother : statements (statement bound) bound d = r at hlocal
    cases hlocal with
    | error _ => exact ⟨_, bind_error_iff.mpr (Or.inl hother)⟩
    | beyond hbeyond => exact absurd hbeyond hc'
  · cases hlast

end Parse

end StackLang
