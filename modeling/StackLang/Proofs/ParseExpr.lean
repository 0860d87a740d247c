import StackLang.Proofs.Derivation

/-!
# Reading expressions

The reader of each form accepts what the grammar derives and nothing else. A reader is `Sound` for
a form if whatever it reads has a derivation with the tree it yields, and `Complete` up to a bound
if it reads every derivation of at most that many tokens, as long as the token after them could not
continue it.
-/

namespace StackLang

/-- The slot of every name in the table, as a function. -/
def SlotTable.place (t : SlotTable) (name : String) : Int :=
  ((t.find? name).map Slot.offset).getD 0

/-- The function gives the slots of the table. -/
def Agrees (place : String → Int) (t : SlotTable) : Prop :=
  ∀ name slot, t.find? name = some slot → place name = slot.offset

theorem agrees_place (t : SlotTable) : Agrees t.place t := by
  intro name slot h
  simp [SlotTable.place, h]

theorem Agrees.of_reads {place : String → Int} {c c' : Cursor} {ts : List Token}
    (h : Agrees place c'.slots) (hr : Reads c c' ts) : Agrees place c.slots := by
  intro name slot hslot
  apply h name slot
  rw [hr.slots]
  exact SlotTable.find?_declareAll_of_some hslot _

namespace Grammar

/-- The operators of the level as the reader has them. -/
def Rank.level : Rank → Level
  | .multiplicative => .multiplicative
  | .additive => .additive
  | .relational => .relational
  | .equality => .equality

theorem joins_apply {rank : Rank} {s : Symbol} {form : InfixForm} (h : rank.level s = some form)
    (a b : Expr) : Joins rank s a b (form.apply a b) := by
  cases rank <;> cases s <;> cases h
  all_goals constructor

theorem Joins.exists_form {rank : Rank} {s : Symbol} {a b e : Expr} (h : Joins rank s a b e) :
    ∃ form, rank.level s = some form ∧ form.apply a b = e := by
  cases h <;> exact ⟨_, rfl, rfl⟩

theorem operator?_of_kind {level : Level} {t : Token} {s : Symbol} (h : t.kind = .symbol s) :
    level.operator? t = level s := by
  obtain ⟨text, ht⟩ := isSymbol_iff.mp (kind_eq_symbol_iff.mp h)
  simp [Level.operator?, ht]

theorem kind_of_operator? {level : Level} {t : Token} {form : InfixForm}
    (h : level.operator? t = some form) : ∃ s, t.kind = .symbol s ∧ level s = some form := by
  unfold Level.operator? at h
  cases ht : t.lexeme with
  | symbol s text =>
      rw [ht] at h
      exact ⟨s, by simp [Token.kind, ht], h⟩
  | endOfInput => simp [ht] at h
  | identifier name => simp [ht] at h
  | number value => simp [ht] at h

end Grammar

namespace Parse

open Grammar

/-! ## Soundness -/

def Sound (form : Form) (p : Parse Expr) : Prop :=
  ∀ ⦃c c' : Cursor⦄ ⦃e : Expr⦄, c.Closed → p c = .ok e c' →
    ∃ ts, Reads c c' ts ∧ ∀ place, Agrees place c'.slots → DerivesExpr place form ts e

theorem Sound.closed {form : Form} {p : Parse Expr} (hp : Sound form p) {c c' : Cursor} {e : Expr}
    (hc : c.Closed) (h : p c = .ok e c') : c'.Closed := by
  obtain ⟨ts, hr, hd⟩ := hp hc h
  exact hr.closed hc (hd _ (agrees_place c'.slots)).not_isEnd

/-- The cursor passes a symbol. -/
theorem reads_symbol {c : Cursor} {s : Symbol} (hc : c.Closed) (h : c.current.kind = .symbol s) :
    Reads c c.advance [c.current] ∧ c.advance.Closed := by
  have hsym := kind_eq_symbol_iff.mp h
  have hend := not_isEnd_of_isSymbol hsym
  have hr := Reads.advance hc hend (namesOf_symbol hsym)
  exact ⟨hr, hr.closed hc (by simpa using hend)⟩

theorem kind_of_symbol {t : Token} {s : Symbol} {text : String} (h : t.lexeme = .symbol s text) :
    t.kind = .symbol s := by
  simp [Token.kind, h]

theorem primary_eq (expression : Parse Expr) (c : Cursor) :
    primary expression c =
      match c.current.lexeme with
      | .number value => .ok (.number c.current.location value) c.advance
      | .identifier name =>
        .ok (.var ⟨c.current.location, (c.slots.declare name).1.name,
            (c.slots.declare name).1.offset⟩)
          { c.advance with slots := (c.slots.declare name).2 }
      | .symbol .leftParen _ =>
        (do
          let e ← expression
          expect .rightParen
          return e : Parse Expr) c.advance
      | _ => unexpected .expression c := by
  unfold primary
  rw [bind_of_ok (peek_eq c)]
  cases c.current.lexeme with
  | symbol s text => cases s <;> rfl
  | identifier name => rw [← Cursor.slots_advance c]; rfl
  | number value => rfl
  | endOfInput => rfl

theorem primary_sound {expression : Parse Expr} (hx : Sound .expression expression) :
    Sound .primary (primary expression) := by
  intro c c' e hc h
  rw [primary_eq] at h
  split at h
  · next value hlex =>
    cases h
    have hend := isEnd_eq_false_of_kind (t := c.current) (by simp [Token.kind, hlex])
    exact ⟨_, Reads.advance hc hend (namesOf_number hlex), fun _ _ => .number hlex⟩
  · next name hlex =>
    cases h
    have hend := isEnd_eq_false_of_kind (t := c.current) (by simp [Token.kind, hlex])
    refine ⟨[c.current], ⟨Cursor.rest_advance hc hend, ?_⟩, ?_⟩
    · simp [namesOf_identifier hlex]
    · intro place hp
      have hoff := hp name _ (SlotTable.find?_declare_self _ _)
      rw [SlotTable.name_of_declare, ← hoff]
      exact .name hlex
  · next text hlex =>
    simp only [bind_ok_iff, pure_ok_iff] at h
    obtain ⟨e', d, he, u, d', hr, rfl, rfl⟩ := h
    have hl := kind_of_symbol hlex
    obtain ⟨ho, hco⟩ := reads_symbol hc hl
    obtain ⟨ts, hts, hd⟩ := hx hco he
    obtain ⟨hrs, hrr⟩ := expect_reads (hx.closed hco he) hr
    refine ⟨_, ho.trans (hts.trans hrr), fun place hp => ?_⟩
    exact .parentheses hl (hd place (hp.of_reads hrr)) (kind_eq_symbol_iff.mpr hrs)
  · exact absurd h (unexpected_ne_ok _ _ _ _)

theorem unary_eq (expression : Parse Expr) (c : Cursor) :
    unary expression c =
      match c.current.lexeme with
      | .symbol .plus _ => primary expression c.advance
      | .symbol .minus _ =>
        (do
          let e ← primary expression
          return .binary c.current.location .sub (.number c.current.location 0) e : Parse Expr)
          c.advance
      | _ => primary expression c := by
  unfold unary
  rw [bind_of_ok (peek_eq c)]
  cases c.current.lexeme with
  | symbol s text => cases s <;> rfl
  | identifier name => rfl
  | number value => rfl
  | endOfInput => rfl

theorem unary_sound {expression : Parse Expr} (hx : Sound .expression expression) :
    Sound .unary (unary expression) := by
  intro c c' e hc h
  have hprimary := primary_sound hx
  rw [unary_eq] at h
  split at h
  · next text hlex =>
    obtain ⟨hr, hca⟩ := reads_symbol hc (kind_of_symbol hlex)
    obtain ⟨ts, hts, hd⟩ := hprimary hca h
    exact ⟨_, hr.trans hts, fun place hp => .plus (kind_of_symbol hlex) (hd place hp)⟩
  · next text hlex =>
    simp only [bind_ok_iff, pure_ok_iff] at h
    obtain ⟨e', d, he, rfl, rfl⟩ := h
    obtain ⟨hr, hca⟩ := reads_symbol hc (kind_of_symbol hlex)
    obtain ⟨ts, hts, hd⟩ := hprimary hca he
    exact ⟨_, hr.trans hts, fun place hp => .minus (kind_of_symbol hlex) (hd place hp)⟩
  · obtain ⟨ts, hts, hd⟩ := hprimary hc h
    exact ⟨ts, hts, fun place hp => .unsigned (hd place hp)⟩

theorem chainFrom_succ (operand : Parse Expr) (level : Level) (bound : Nat) (left : Expr)
    (c : Cursor) :
    chainFrom operand level (bound + 1) left c =
      match level.operator? c.current with
      | none => .ok left c
      | some form =>
        (do
          let right ← operand
          chainFrom operand level bound (form.apply left right) : Parse Expr) c.advance := by
  rw [chainFrom, bind_of_ok (peek_eq c)]
  cases level.operator? c.current <;> rfl

/-- A chain goes on from an operand that was derived, and derives a longer one. -/
theorem chainFrom_sound {operand : Parse Expr} {rank : Rank} (ho : Sound rank.operand operand)
    (bound : Nat) {c c' : Cursor} {left e : Expr} (hc : c.Closed)
    (h : chainFrom operand rank.level bound left c = .ok e c') :
    ∃ us, Reads c c' us ∧ ∀ place, Agrees place c'.slots → ∀ ts,
      DerivesExpr place (.level rank) ts left → DerivesExpr place (.level rank) (ts ++ us) e := by
  induction bound generalizing c left with
  | zero =>
      rw [chainFrom, pure_ok_iff] at h
      obtain ⟨rfl, rfl⟩ := h
      exact ⟨[], Reads.refl _, fun _ _ ts hts => by simpa using hts⟩
  | succ bound ih =>
      rw [chainFrom_succ] at h
      split at h
      · cases h
        exact ⟨[], Reads.refl _, fun _ _ ts hts => by simpa using hts⟩
      · next form hform =>
        obtain ⟨right, d, hright, hrest⟩ := bind_ok_iff.mp h
        obtain ⟨s, hs, hsf⟩ := kind_of_operator? hform
        obtain ⟨hr, hca⟩ := reads_symbol hc hs
        obtain ⟨us, hus, hd⟩ := ho hca hright
        obtain ⟨vs, hvs, hd'⟩ := ih (ho.closed hca hright) hrest
        refine ⟨_, hr.trans (hus.trans hvs), fun place hp ts hts => ?_⟩
        have hstep := DerivesExpr.operator hts hs (hd place (hp.of_reads hvs))
          (joins_apply hsf left right)
        simpa using hd' place hp _ hstep

theorem chain_sound (rank : Rank) {operand : Parse Expr} (ho : Sound rank.operand operand)
    (bound : Nat) : Sound (.level rank) (chain bound rank.level operand) := by
  intro c c' e hc h
  obtain ⟨first, d, hfirst, hrest⟩ := bind_ok_iff.mp h
  obtain ⟨ts, hts, hd⟩ := ho hc hfirst
  obtain ⟨us, hus, hd'⟩ := chainFrom_sound ho bound (ho.closed hc hfirst) hrest
  refine ⟨_, hts.trans hus, fun place hp => ?_⟩
  exact hd' place hp ts (.operand (hd place (hp.of_reads hus)))

theorem equality_sound {expression : Parse Expr} (hx : Sound .expression expression)
    (bound : Nat) : Sound (.level .equality) (equality bound expression) := by
  have hm : Sound (.level .multiplicative) (multiplicative bound expression) :=
    chain_sound .multiplicative (unary_sound hx) bound
  have ha : Sound (.level .additive) (additive bound expression) :=
    chain_sound .additive hm bound
  have hr : Sound (.level .relational) (relational bound expression) :=
    chain_sound .relational ha bound
  exact chain_sound .equality hr bound

theorem assignment_sound {expression : Parse Expr} (hx : Sound .expression expression)
    (bound : Nat) : Sound .expression (assignment bound expression) := by
  intro c c' e hc h
  have heq := equality_sound hx bound
  unfold assignment at h
  rw [bind_of_ok (peek_eq c)] at h
  obtain ⟨first, d, hfirst, hrest⟩ := bind_ok_iff.mp h
  obtain ⟨ts, hts, hd⟩ := heq hc hfirst
  have hcd := heq.closed hc hfirst
  rw [bind_of_ok (at?_eq _ d)] at hrest
  split at hrest
  · next hassign =>
    split at hrest
    · next target =>
      rw [bind_of_ok (advance_eq d)] at hrest
      simp only [bind_ok_iff, pure_ok_iff] at hrest
      obtain ⟨value, d', hvalue, rfl, rfl⟩ := hrest
      have hkind := kind_eq_symbol_iff.mpr hassign
      obtain ⟨hr, hca⟩ := reads_symbol hcd hkind
      obtain ⟨us, hus, hd'⟩ := hx hca hvalue
      refine ⟨_, hts.trans (hr.trans hus), fun place hp => ?_⟩
      have htarget := (hd place ((hp.of_reads hus).of_reads hr)).target.1
      exact .assignment htarget hkind (hd' place hp)
    · exact absurd hrest (throw_ne_ok _ _ _ _)
  · rw [pure_ok_iff] at hrest
    obtain ⟨rfl, rfl⟩ := hrest
    exact ⟨ts, hts, fun place hp => .equality (hd place hp)⟩

theorem expression_sound (bound : Nat) : Sound .expression (expression bound) := by
  induction bound with
  | zero =>
      intro c c' e _ h
      exact absurd h (unexpected_ne_ok _ _ _ _)
  | succ bound ih => exact assignment_sound ih bound

/-! ## Completeness -/

/-- The symbols after which a reader of the form would go on. -/
def continuations : Form → List Symbol
  | .primary | .unary => []
  | .level .multiplicative => Rank.multiplicative.operators
  | .level .additive => Rank.additive.operators ++ Rank.multiplicative.operators
  | .level .relational =>
    Rank.relational.operators ++ (Rank.additive.operators ++ Rank.multiplicative.operators)
  | .level .equality =>
    Rank.equality.operators ++
      (Rank.relational.operators ++ (Rank.additive.operators ++ Rank.multiplicative.operators))
  | .expression =>
    .assign :: (Rank.equality.operators ++
      (Rank.relational.operators ++ (Rank.additive.operators ++ Rank.multiplicative.operators)))

/-- The token ends the form. -/
def Ends (form : Form) (t : Token) : Prop :=
  ∀ s ∈ continuations form, t.kind ≠ .symbol s

theorem ends_of_symbol {form : Form} {t : Token} {s : Symbol} (h : t.kind = .symbol s)
    (hs : s ∉ continuations form) : Ends form t := by
  intro s' hs' hkind
  rw [h, Kind.symbol.injEq] at hkind
  exact hs (hkind ▸ hs')

theorem Ends.operand {rank : Rank} {t : Token} (h : Ends (.level rank) t) :
    Ends rank.operand t := by
  intro s hs
  apply h s
  cases rank with
  | multiplicative => cases hs
  | additive | relational | equality => exact List.mem_append_right _ hs

theorem Ends.operator?_eq_none {rank : Rank} {t : Token} (h : Ends (.level rank) t) :
    rank.level.operator? t = none := by
  cases hop : rank.level.operator? t with
  | none => rfl
  | some form =>
      obtain ⟨s, hs, hform⟩ := kind_of_operator? hop
      have hmem := (joins_apply hform (.bare ⟨"", 0, 0, 0⟩) (.bare ⟨"", 0, 0, 0⟩)).mem_operators
      refine absurd hs (h s ?_)
      cases rank <;> simp [continuations, hmem]

def Complete (form : Form) (bound : Nat) (p : Parse Expr) : Prop :=
  ∀ ⦃place : String → Int⦄ ⦃c c' : Cursor⦄ ⦃ts : List Token⦄ ⦃e : Expr⦄,
    DerivesExpr place form ts e → ts.length ≤ bound → Reads c c' ts → Agrees place c'.slots →
    Ends form c'.current → p c = .ok e c'

theorem advance_of_reads {c c' : Cursor} {t : Token} {s : Symbol} (h : Reads c c' [t])
    (hs : t.kind = .symbol s) : c.advance = c' := by
  have hsym := kind_eq_symbol_iff.mp hs
  exact h.eq_advance (not_isEnd_of_isSymbol hsym) (namesOf_symbol hsym)

theorem lexeme_of_kind {t : Token} {s : Symbol} (h : t.kind = .symbol s) :
    ∃ text, t.lexeme = .symbol s text :=
  isSymbol_iff.mp (kind_eq_symbol_iff.mp h)

theorem primary_complete {bound : Nat} {expression : Parse Expr}
    (hx : Complete .expression bound expression) :
    Complete .primary (bound + 1) (primary expression) := by
  intro place c c' ts e hd hlen hr hp _
  rw [primary_eq]
  cases hd with
  | @number t _ ht =>
      have hend := isEnd_eq_false_of_kind (t := t) (by simp [kind_eq_number_iff.mpr ⟨_, ht⟩])
      rw [hr.current, ht, hr.eq_advance hend (namesOf_number ht)]
  | @name t n ht =>
      have hend := isEnd_eq_false_of_kind (t := t) (by simp [kind_eq_identifier_iff.mpr ⟨_, ht⟩])
      have hslots := hr.slots
      rw [namesOf_identifier ht] at hslots
      have hoff := hp n (c.slots.declare n).1 (hslots ▸ SlotTable.find?_declare_self c.slots n)
      have hc' : { c.advance with slots := (c.slots.declare n).2 } = c' :=
        Cursor.ext_of_rest (hr.advance_eq hend) hslots.symm
      rw [hr.current, ht]
      simp only [hc', SlotTable.name_of_declare, hoff]
  | @parentheses l us r _ hl he hrp =>
      obtain ⟨d, hd₁, hrest⟩ := hr.split_cons
      obtain ⟨d', hd₂, hd₃⟩ := hrest.split
      obtain ⟨text, htext⟩ := lexeme_of_kind hl
      have hends : Ends .expression d'.current := by
        rw [hd₃.current]
        exact ends_of_symbol hrp (by decide)
      have hinner := hx he (by simp at hlen; omega) hd₂ (hp.of_reads hd₃) hends
      rw [hr.current, htext, advance_of_reads hd₁ hl]
      simp only []
      rw [bind_of_ok hinner, bind_of_ok (expect_of_reads hd₃ (kind_eq_symbol_iff.mp hrp))]
      rfl

theorem unary_complete {bound : Nat} {expression : Parse Expr}
    (hx : Complete .expression bound expression) :
    Complete .unary (bound + 1) (unary expression) := by
  intro place c c' ts e hd hlen hr hp _
  have hprimary := primary_complete hx
  have hends : Ends .primary c'.current := by simp [Ends, continuations]
  rw [unary_eq]
  cases hd with
  | unsigned h =>
      have hrun := hprimary h hlen hr hp hends
      cases h with
      | number ht => rw [hr.current, ht]; exact hrun
      | name ht => rw [hr.current, ht]; exact hrun
      | parentheses hl _ _ =>
          obtain ⟨text, htext⟩ := lexeme_of_kind hl
          rw [hr.current, htext]
          exact hrun
  | plus ht h =>
      obtain ⟨d, hd₁, hd₂⟩ := hr.split_cons
      obtain ⟨text, htext⟩ := lexeme_of_kind ht
      rw [hr.current, htext, advance_of_reads hd₁ ht]
      exact hprimary h (by simp at hlen; omega) hd₂ hp hends
  | minus ht h =>
      obtain ⟨d, hd₁, hd₂⟩ := hr.split_cons
      obtain ⟨text, htext⟩ := lexeme_of_kind ht
      have hrun := hprimary h (by simp at hlen; omega) hd₂ hp hends
      rw [hr.current, htext, advance_of_reads hd₁ ht]
      simp only []
      rw [bind_of_ok hrun]
      rfl

/-- A chain passes the operands of a derivation one by one; what is left to it is what follows. -/
theorem chain_run {limit : Nat} {rank : Rank} {operand : Parse Expr}
    (ho : Complete rank.operand limit operand) {place : String → Int} :
    ∀ {ts : List Token} {e : Expr}, DerivesExpr place (.level rank) ts e → ts.length ≤ limit →
      ∃ n < ts.length, ∀ {bound : Nat} {c c' : Cursor}, n ≤ bound → Reads c c' ts →
        Agrees place c'.slots → Ends rank.operand c'.current →
        chain bound rank.level operand c = chainFrom operand rank.level (bound - n) e c'
  | ts, _, .operand h, hlen => by
      refine ⟨0, List.length_pos_iff.mpr h.ne_nil, fun {bound c c'} _ hr hp hends => ?_⟩
      exact bind_of_ok (ho h hlen hr hp hends) _
  | _, _, @DerivesExpr.operator _ _ ts _ t s us _ _ h₁ ht h₂ hj, hlen => by
      simp only [List.length_append, List.length_cons] at hlen
      obtain ⟨n, hn, hrun⟩ := chain_run ho h₁ (by omega)
      refine ⟨n + 1, by simp; omega, fun {bound c c'} hb hr hp hends => ?_⟩
      obtain ⟨d, hd₁, hrest⟩ := hr.split
      obtain ⟨d', hd₂, hd₃⟩ := hrest.split_cons
      obtain ⟨form, hform, happly⟩ := hj.exists_form
      have hmem := hj.mem_operators
      have hendsd : Ends rank.operand d.current := by
        rw [hrest.current]
        refine ends_of_symbol ht ?_
        revert hmem
        cases rank <;> cases s <;> decide
      have hright := ho h₂ (by omega) hd₃ hp hends
      rw [hrun (by omega) hd₁ ((hp.of_reads hd₃).of_reads hd₂) hendsd,
        show bound - n = bound - (n + 1) + 1 by omega, chainFrom_succ, hrest.current,
        operator?_of_kind ht, hform, advance_of_reads hd₂ ht]
      simp only []
      rw [bind_of_ok hright, happly]
termination_by ts => ts.length
decreasing_by simp

theorem chain_complete (rank : Rank) {bound : Nat} {operand : Parse Expr}
    (ho : Complete rank.operand (bound + 1) operand) :
    Complete (.level rank) (bound + 1) (chain bound rank.level operand) := by
  intro place c c' ts e hd hlen hr hp hends
  obtain ⟨n, hn, hrun⟩ := chain_run ho hd hlen
  rw [hrun (by omega) hr hp hends.operand]
  cases bound - n with
  | zero => rfl
  | succ m => rw [chainFrom_succ, hends.operator?_eq_none]

theorem equality_complete {bound : Nat} {expression : Parse Expr}
    (hx : Complete .expression bound expression) :
    Complete (.level .equality) (bound + 1) (equality bound expression) := by
  have hm : Complete (.level .multiplicative) (bound + 1) (multiplicative bound expression) :=
    chain_complete .multiplicative (unary_complete hx)
  have ha : Complete (.level .additive) (bound + 1) (additive bound expression) :=
    chain_complete .additive hm
  have hr : Complete (.level .relational) (bound + 1) (relational bound expression) :=
    chain_complete .relational ha
  exact chain_complete .equality hr

theorem assignment_complete {bound : Nat} {expression : Parse Expr}
    (hx : Complete .expression bound expression) :
    Complete .expression (bound + 1) (assignment bound expression) := by
  intro place c c' ts e hd hlen hr hp hends
  have heq := equality_complete hx
  unfold assignment
  rw [bind_of_ok (peek_eq c)]
  cases hd with
  | equality h =>
      have hsub : Ends (.level .equality) c'.current :=
        fun s hs => hends s (List.mem_cons_of_mem _ hs)
      have hno : c'.current.isSymbol .assign = false := by
        have hne := hends .assign (by simp [continuations])
        rw [Ne, kind_eq_symbol_iff] at hne
        simpa using hne
      rw [bind_of_ok (heq h hlen hr hp hsub), bind_of_ok (at?_eq _ c'), hno]
      rfl
  | @assignment us ref t vs e htarget ht h =>
      simp only [List.length_append, List.length_cons] at hlen
      obtain ⟨d, hd₁, hrest⟩ := hr.split
      obtain ⟨d', hd₂, hd₃⟩ := hrest.split_cons
      have hsub : Ends (.level .equality) d.current := by
        rw [hrest.current]
        exact ends_of_symbol ht (by decide)
      have htarget := heq htarget.derivesExpr (by omega) hd₁
        ((hp.of_reads hd₃).of_reads hd₂) hsub
      have hvalue := hx h (by omega) hd₃ hp hends
      rw [bind_of_ok htarget, bind_of_ok (at?_eq _ d), hrest.current, kind_eq_symbol_iff.mp ht]
      simp only [↓reduceIte]
      rw [bind_of_ok (advance_eq d), advance_of_reads hd₂ ht, bind_of_ok hvalue]
      rfl

theorem expression_complete (bound : Nat) : Complete .expression bound (expression bound) := by
  induction bound with
  | zero =>
      intro place c c' ts e hd hlen _ _ _
      exact absurd (List.length_eq_zero_iff.mp (by omega)) hd.ne_nil
  | succ bound ih => exact assignment_complete ih

end Parse

end StackLang
