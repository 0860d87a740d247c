import StackLang.Proofs.Grammar
import StackLang.Proofs.Reading

/-!
# Derivations

Facts about the grammar alone: derivations exist for exactly the sentences, no derivation reads
the end of the input, a variable is derived exactly from what may stand before an assignment sign,
and every sentence has a derivation in which each `else` belongs to the nearest `if`.
-/

namespace StackLang

theorem kind_eq_symbol_iff {t : Token} {s : Symbol} :
    t.kind = .symbol s ↔ t.isSymbol s = true := by
  unfold Token.kind Token.isSymbol
  cases t.lexeme <;> simp

theorem kind_eq_identifier_iff {t : Token} :
    t.kind = .identifier ↔ ∃ name, t.lexeme = .identifier name := by
  unfold Token.kind
  cases t.lexeme <;> simp

theorem kind_eq_number_iff {t : Token} : t.kind = .number ↔ ∃ v, t.lexeme = .number v := by
  unfold Token.kind
  cases t.lexeme <;> simp

theorem isEnd_eq_false_of_kind {t : Token} (h : t.kind ≠ .endOfInput) : t.isEnd = false := by
  unfold Token.kind at h
  unfold Token.isEnd
  cases ht : t.lexeme <;> simp_all

namespace Grammar

variable {place : String → Int}

/-! ## Operators -/

theorem Joins.mem_operators {rank : Rank} {s : Symbol} {a b e : Expr} (h : Joins rank s a b e) :
    s ∈ rank.operators := by
  cases h <;> simp [Rank.operators]

theorem exists_joins {rank : Rank} {s : Symbol} (h : s ∈ rank.operators) (a b : Expr) :
    ∃ e, Joins rank s a b e := by
  cases rank <;> simp only [Rank.operators, List.mem_cons, List.not_mem_nil, or_false] at h
  · rcases h with rfl | rfl
    · exact ⟨_, .mul⟩
    · exact ⟨_, .div⟩
  · rcases h with rfl | rfl
    · exact ⟨_, .add⟩
    · exact ⟨_, .sub⟩
  · rcases h with rfl | rfl | rfl | rfl
    · exact ⟨_, .lt⟩
    · exact ⟨_, .le⟩
    · exact ⟨_, .gt⟩
    · exact ⟨_, .ge⟩
  · rcases h with rfl | rfl
    · exact ⟨_, .eq⟩
    · exact ⟨_, .ne⟩

theorem Joins.ne_var {rank : Rank} {s : Symbol} {a b e : Expr} (h : Joins rank s a b e)
    (r : VarRef) : e ≠ .var r := by
  cases h <;> simp

/-! ## Targets -/

theorem DerivesExpr.unary_of_primary {sign ts : List Token} {e : Expr}
    (hsign : OptionalPlus (sign.map Token.kind)) (h : DerivesExpr place .primary ts e) :
    DerivesExpr place .unary (sign ++ ts) e := by
  rcases hsign with hnil | hplus
  · rw [List.map_eq_nil_iff.mp hnil]
    exact .unsigned h
  · obtain ⟨t, rest, rfl, ht, hrest⟩ := List.map_eq_cons_iff.mp hplus
    rw [List.map_eq_nil_iff.mp hrest]
    exact .plus ht h

theorem DerivesExpr.equality_of_unary {ts : List Token} {e : Expr}
    (h : DerivesExpr place .unary ts e) : DerivesExpr place (.level .equality) ts e := by
  have hm : DerivesExpr place (.level .multiplicative) ts e := .operand h
  have ha : DerivesExpr place (.level .additive) ts e := .operand hm
  have hr : DerivesExpr place (.level .relational) ts e := .operand ha
  exact .operand hr

theorem DerivesTarget.derivesExpr {ts : List Token} {r : VarRef} (h : DerivesTarget place ts r) :
    DerivesExpr place (.level .equality) ts (.var r) := by
  induction h with
  | name hsign ht => exact .equality_of_unary (.unary_of_primary hsign (.name ht))
  | parentheses hsign hl _ hr ih =>
      exact .equality_of_unary (.unary_of_primary hsign (.parentheses hl (.equality ih) hr))

/-- A variable can only be derived from a target, and a primary also takes a sign. -/
theorem DerivesExpr.target {form : Form} {ts : List Token} {r : VarRef}
    (h : DerivesExpr place form ts (.var r)) :
    DerivesTarget place ts r ∧
      (form = .primary → ∀ sign, OptionalPlus (sign.map Token.kind) →
        DerivesTarget place (sign ++ ts) r) := by
  generalize he : Expr.var r = e at h
  induction h with
  | number _ => cases he
  | name ht =>
      cases he
      exact ⟨@DerivesTarget.name place [] _ _ (.inl rfl) ht, fun _ _ hsign => .name hsign ht⟩
  | parentheses hl _ hr ih =>
      have inner := (ih he).1
      exact ⟨@DerivesTarget.parentheses place [] _ _ _ _ (.inl rfl) hl inner hr,
        fun _ _ hsign => .parentheses hsign hl inner hr⟩
  | unsigned _ ih => exact ⟨(ih he).1, by simp⟩
  | @plus t _ _ ht _ ih =>
      exact ⟨(ih he).2 rfl [t] (.inr (by simp [ht])), by simp⟩
  | minus _ _ => cases he
  | operand _ ih => exact ⟨(ih he).1, by simp⟩
  | operator _ _ _ hj => exact absurd he.symm (hj.ne_var r)
  | equality _ ih => exact ⟨(ih he).1, by simp⟩
  | assignment _ _ _ => cases he

/-! ## From derivations to sentences -/

theorem DerivesTarget.sentence {ts : List Token} {r : VarRef} (h : DerivesTarget place ts r) :
    TargetSentence (ts.map Token.kind) := by
  induction h with
  | name hsign ht =>
      have hkind := kind_eq_identifier_iff.mpr ⟨_, ht⟩
      simpa [hkind] using TargetSentence.name hsign
  | parentheses hsign hl _ hr ih =>
      simpa [hl, hr] using TargetSentence.parentheses hsign ih

theorem DerivesExpr.sentence {form : Form} {ts : List Token} {e : Expr}
    (h : DerivesExpr place form ts e) : ExprSentence form (ts.map Token.kind) := by
  induction h with
  | number ht =>
      have hkind := kind_eq_number_iff.mpr ⟨_, ht⟩
      simpa [hkind] using ExprSentence.number
  | name ht =>
      have hkind := kind_eq_identifier_iff.mpr ⟨_, ht⟩
      simpa [hkind] using ExprSentence.name
  | parentheses hl _ hr ih => simpa [hl, hr] using ExprSentence.parentheses ih
  | unsigned _ ih => exact .unsigned ih
  | plus ht _ ih => simpa [ht] using ExprSentence.plus ih
  | minus ht _ ih => simpa [ht] using ExprSentence.minus ih
  | operand _ ih => exact .operand ih
  | operator _ ht _ hj ih₁ ih₂ =>
      simpa [ht] using ExprSentence.operator ih₁ hj.mem_operators ih₂
  | equality _ ih => exact .equality ih
  | assignment htarget ht _ ih => simpa [ht] using ExprSentence.assignment htarget.sentence ih

theorem DerivesClause.sentence {ts : List Token} {e : Option Expr}
    (h : DerivesClause place ts e) : ClauseSentence (ts.map Token.kind) := by
  cases h with
  | absent => exact .inl rfl
  | present he => exact .inr he.sentence

mutual

theorem DerivesStmt.sentence {ts : List Token} {s : Stmt} (h : DerivesStmt place ts s) :
    StmtSentence (ts.map Token.kind) := by
  cases h with
  | expr he hs => simpa [hs] using StmtSentence.expr he.sentence
  | ret ht he hs => simpa [ht, hs] using StmtSentence.ret he.sentence
  | ifThen ht hl hc hr ha => simpa [ht, hl, hr] using StmtSentence.ifThen hc.sentence ha.sentence
  | ifElse ht hl hc hr ha he hb =>
      simpa [ht, hl, hr, he] using StmtSentence.ifElse hc.sentence ha.sentence hb.sentence
  | while_ ht hl hc hr ha => simpa [ht, hl, hr] using StmtSentence.while_ hc.sentence ha.sentence
  | for_ ht hl hi hm hc hn hu hr ha =>
      simpa [ht, hl, hm, hn, hr] using
        StmtSentence.for_ hi.sentence hc.sentence hu.sentence ha.sentence
  | block hl hss hr => simpa [hl, hr] using StmtSentence.block hss.sentence

theorem DerivesProgram.sentence {ts : List Token} {ss : List Stmt}
    (h : DerivesProgram place ts ss) : ProgramSentence (ts.map Token.kind) := by
  cases h with
  | nil => exact .nil
  | cons hs hss => simpa using ProgramSentence.cons hs.sentence hss.sentence

end

/-! ## From sentences to derivations -/

theorem map_kind_eq_append_cons {ts : List Token} {ks ls : List Kind} {k : Kind}
    (h : ts.map Token.kind = ks ++ k :: ls) :
    ∃ us t vs, ts = us ++ t :: vs ∧ us.map Token.kind = ks ∧ t.kind = k ∧
      vs.map Token.kind = ls := by
  obtain ⟨us, ws, rfl, hus, hws⟩ := List.map_eq_append_iff.mp h
  obtain ⟨t, vs, rfl, ht, hvs⟩ := List.map_eq_cons_iff.mp hws
  exact ⟨us, t, vs, rfl, hus, ht, hvs⟩

theorem map_kind_eq_cons {ts : List Token} {ks : List Kind} {k : Kind}
    (h : ts.map Token.kind = k :: ks) :
    ∃ t us, ts = t :: us ∧ t.kind = k ∧ us.map Token.kind = ks := by
  obtain ⟨t, us, rfl, ht, hus⟩ := List.map_eq_cons_iff.mp h
  exact ⟨t, us, rfl, ht, hus⟩

theorem map_kind_eq_append_singleton {ts : List Token} {ks : List Kind} {k : Kind}
    (h : ts.map Token.kind = ks ++ [k]) :
    ∃ us t, ts = us ++ [t] ∧ us.map Token.kind = ks ∧ t.kind = k := by
  obtain ⟨us, t, vs, rfl, hus, ht, hvs⟩ := map_kind_eq_append_cons h
  rw [List.map_eq_nil_iff.mp hvs]
  exact ⟨us, t, rfl, hus, ht⟩

variable (place) in
theorem TargetSentence.derives {ks : List Kind} (h : TargetSentence ks) {ts : List Token}
    (hts : ts.map Token.kind = ks) : ∃ r, DerivesTarget place ts r := by
  induction h generalizing ts with
  | name hsign =>
      obtain ⟨us, t, rfl, hus, ht⟩ := map_kind_eq_append_singleton hts
      obtain ⟨n, hn⟩ := kind_eq_identifier_iff.mp ht
      exact ⟨_, .name (hus ▸ hsign) hn⟩
  | parentheses hsign _ ih =>
      obtain ⟨us, l, ws, rfl, hus, hl, hws⟩ := map_kind_eq_append_cons hts
      obtain ⟨vs, r, rfl, hvs, hr⟩ := map_kind_eq_append_singleton hws
      obtain ⟨ref, hd⟩ := ih hvs
      exact ⟨ref, .parentheses (hus ▸ hsign) hl hd hr⟩

variable (place) in
theorem ExprSentence.derives {form : Form} {ks : List Kind} (h : ExprSentence form ks)
    {ts : List Token} (hts : ts.map Token.kind = ks) : ∃ e, DerivesExpr place form ts e := by
  induction h generalizing ts with
  | number =>
      obtain ⟨t, us, rfl, ht, hus⟩ := map_kind_eq_cons hts
      obtain ⟨v, hv⟩ := kind_eq_number_iff.mp ht
      rw [List.map_eq_nil_iff.mp hus]
      exact ⟨_, .number hv⟩
  | name =>
      obtain ⟨t, us, rfl, ht, hus⟩ := map_kind_eq_cons hts
      obtain ⟨n, hn⟩ := kind_eq_identifier_iff.mp ht
      rw [List.map_eq_nil_iff.mp hus]
      exact ⟨_, .name hn⟩
  | parentheses _ ih =>
      obtain ⟨l, ws, rfl, hl, hws⟩ := map_kind_eq_cons hts
      obtain ⟨us, r, rfl, hus, hr⟩ := map_kind_eq_append_singleton hws
      obtain ⟨e, he⟩ := ih hus
      exact ⟨e, .parentheses hl he hr⟩
  | unsigned _ ih =>
      obtain ⟨e, he⟩ := ih hts
      exact ⟨e, .unsigned he⟩
  | plus _ ih =>
      obtain ⟨t, us, rfl, ht, hus⟩ := map_kind_eq_cons hts
      obtain ⟨e, he⟩ := ih hus
      exact ⟨e, .plus ht he⟩
  | minus _ ih =>
      obtain ⟨t, us, rfl, ht, hus⟩ := map_kind_eq_cons hts
      obtain ⟨e, he⟩ := ih hus
      exact ⟨_, .minus ht he⟩
  | operand _ ih =>
      obtain ⟨e, he⟩ := ih hts
      exact ⟨e, .operand he⟩
  | operator _ hs _ ih₁ ih₂ =>
      obtain ⟨us, t, vs, rfl, hus, ht, hvs⟩ := map_kind_eq_append_cons hts
      obtain ⟨a, ha⟩ := ih₁ hus
      obtain ⟨b, hb⟩ := ih₂ hvs
      obtain ⟨e, he⟩ := exists_joins hs a b
      exact ⟨e, .operator ha ht hb he⟩
  | equality _ ih =>
      obtain ⟨e, he⟩ := ih hts
      exact ⟨e, .equality he⟩
  | assignment htarget _ ih =>
      obtain ⟨us, t, vs, rfl, hus, ht, hvs⟩ := map_kind_eq_append_cons hts
      obtain ⟨r, hr⟩ := htarget.derives place hus
      obtain ⟨e, he⟩ := ih hvs
      exact ⟨_, .assignment hr ht he⟩

variable (place) in
theorem ClauseSentence.derives {ks : List Kind} (h : ClauseSentence ks) {ts : List Token}
    (hts : ts.map Token.kind = ks) : ∃ e, DerivesClause place ts e := by
  rcases h with rfl | h
  · rw [List.map_eq_nil_iff.mp hts]
    exact ⟨none, .absent⟩
  · obtain ⟨e, he⟩ := h.derives place hts
    exact ⟨some e, .present he⟩

theorem ExprSentence.ne_nil {form : Form} {ks : List Kind} (h : ExprSentence form ks) :
    ks ≠ [] := by
  induction h with
  | unsigned _ ih | operand _ ih | equality _ ih => exact ih
  | number | name | parentheses _ _ | plus _ _ | minus _ _ | operator _ _ _ _ _
  | assignment _ _ _ => simp

mutual

theorem StmtSentence.derives (place : String → Int) : ∀ {ks : List Kind}, StmtSentence ks →
    ∀ {ts : List Token}, ts.map Token.kind = ks → ∃ s, DerivesStmt place ts s
  | _, .expr hk, ts, hts => by
      obtain ⟨us, s, rfl, hus, hs⟩ := map_kind_eq_append_singleton hts
      obtain ⟨e, he⟩ := hk.derives place hus
      cases us with
      | nil => exact absurd hus.symm hk.ne_nil
      | cons t us => exact ⟨_, .expr he hs⟩
  | _, .ret hk, ts, hts => by
      obtain ⟨t, ws, rfl, ht, hws⟩ := map_kind_eq_cons hts
      obtain ⟨us, s, rfl, hus, hs⟩ := map_kind_eq_append_singleton hws
      obtain ⟨e, he⟩ := hk.derives place hus
      exact ⟨_, .ret ht he hs⟩
  | _, .ifThen hk ha, ts, hts => by
      obtain ⟨t, ws, rfl, ht, hws⟩ := map_kind_eq_cons hts
      obtain ⟨l, xs, rfl, hl, hxs⟩ := map_kind_eq_cons hws
      obtain ⟨us, r, vs, rfl, hus, hr, hvs⟩ := map_kind_eq_append_cons hxs
      obtain ⟨c, hc⟩ := hk.derives place hus
      obtain ⟨a, ha⟩ := ha.derives place hvs
      exact ⟨_, .ifThen ht hl hc hr ha⟩
  | _, .ifElse hk ha hb, ts, hts => by
      obtain ⟨t, ws, rfl, ht, hws⟩ := map_kind_eq_cons hts
      obtain ⟨l, xs, rfl, hl, hxs⟩ := map_kind_eq_cons hws
      obtain ⟨us, r, ys, rfl, hus, hr, hys⟩ := map_kind_eq_append_cons hxs
      obtain ⟨vs, e, zs, rfl, hvs, he, hzs⟩ := map_kind_eq_append_cons hys
      obtain ⟨c, hc⟩ := hk.derives place hus
      obtain ⟨a, ha⟩ := ha.derives place hvs
      obtain ⟨b, hb⟩ := hb.derives place hzs
      exact ⟨_, .ifElse ht hl hc hr ha he hb⟩
  | _, .while_ hk ha, ts, hts => by
      obtain ⟨t, ws, rfl, ht, hws⟩ := map_kind_eq_cons hts
      obtain ⟨l, xs, rfl, hl, hxs⟩ := map_kind_eq_cons hws
      obtain ⟨us, r, vs, rfl, hus, hr, hvs⟩ := map_kind_eq_append_cons hxs
      obtain ⟨c, hc⟩ := hk.derives place hus
      obtain ⟨a, ha⟩ := ha.derives place hvs
      exact ⟨_, .while_ ht hl hc hr ha⟩
  | _, .for_ hki hkc hku ha, ts, hts => by
      obtain ⟨t, ws, rfl, ht, hws⟩ := map_kind_eq_cons hts
      obtain ⟨l, xs, rfl, hl, hxs⟩ := map_kind_eq_cons hws
      obtain ⟨is, m, ys, rfl, his, hm, hys⟩ := map_kind_eq_append_cons hxs
      obtain ⟨cs, n, zs, rfl, hcs, hn, hzs⟩ := map_kind_eq_append_cons hys
      obtain ⟨us, r, vs, rfl, hus, hr, hvs⟩ := map_kind_eq_append_cons hzs
      obtain ⟨i, hi⟩ := hki.derives place his
      obtain ⟨c, hc⟩ := hkc.derives place hcs
      obtain ⟨u, hu⟩ := hku.derives place hus
      obtain ⟨a, ha⟩ := ha.derives place hvs
      exact ⟨_, .for_ ht hl hi hm hc hn hu hr ha⟩
  | _, .block hk, ts, hts => by
      obtain ⟨l, ws, rfl, hl, hws⟩ := map_kind_eq_cons hts
      obtain ⟨us, r, rfl, hus, hr⟩ := map_kind_eq_append_singleton hws
      obtain ⟨ss, hss⟩ := hk.derives place hus
      exact ⟨_, .block hl hss hr⟩

theorem ProgramSentence.derives (place : String → Int) : ∀ {ks : List Kind}, ProgramSentence ks →
    ∀ {ts : List Token}, ts.map Token.kind = ks → ∃ ss, DerivesProgram place ts ss
  | _, .nil, ts, hts => by
      rw [List.map_eq_nil_iff.mp hts]
      exact ⟨[], .nil⟩
  | _, .cons hs hss, ts, hts => by
      obtain ⟨us, vs, rfl, hus, hvs⟩ := List.map_eq_append_iff.mp hts
      obtain ⟨s, hs⟩ := hs.derives place hus
      obtain ⟨ss, hss⟩ := hss.derives place hvs
      exact ⟨s :: ss, .cons hs hss⟩

end

/-! ## The end of the input -/

theorem TargetSentence.not_mem_end {ks : List Kind} (h : TargetSentence ks) :
    .endOfInput ∉ ks := by
  induction h with
  | name hsign => rcases hsign with rfl | rfl <;> simp
  | parentheses hsign _ ih => rcases hsign with rfl | rfl <;> simpa using ih

theorem ExprSentence.not_mem_end {form : Form} {ks : List Kind} (h : ExprSentence form ks) :
    .endOfInput ∉ ks := by
  induction h with
  | number | name => simp
  | parentheses _ ih | plus _ ih | minus _ ih => simpa using ih
  | unsigned _ ih | operand _ ih | equality _ ih => exact ih
  | operator _ _ _ ih₁ ih₂ => simp [ih₁, ih₂]
  | assignment ht _ ih => simp [ih, ht.not_mem_end]

theorem ClauseSentence.not_mem_end {ks : List Kind} (h : ClauseSentence ks) :
    .endOfInput ∉ ks := by
  rcases h with rfl | h
  · simp
  · exact h.not_mem_end

mutual

theorem StmtSentence.not_mem_end : ∀ {ks : List Kind}, StmtSentence ks → .endOfInput ∉ ks
  | _, .expr hk => by simp [hk.not_mem_end]
  | _, .ret hk => by simp [hk.not_mem_end]
  | _, .ifThen hk ha => by simp [hk.not_mem_end, ha.not_mem_end]
  | _, .ifElse hk ha hb => by simp [hk.not_mem_end, ha.not_mem_end, hb.not_mem_end]
  | _, .while_ hk ha => by simp [hk.not_mem_end, ha.not_mem_end]
  | _, .for_ hi hc hu ha => by
      simp [hi.not_mem_end, hc.not_mem_end, hu.not_mem_end, ha.not_mem_end]
  | _, .block hk => by simp [hk.not_mem_end]

theorem ProgramSentence.not_mem_end : ∀ {ks : List Kind}, ProgramSentence ks → .endOfInput ∉ ks
  | _, .nil => by simp
  | _, .cons hs hss => by simp [hs.not_mem_end, hss.not_mem_end]

end

theorem not_isEnd_of_not_mem {ts : List Token} (h : .endOfInput ∉ ts.map Token.kind) :
    ∀ t ∈ ts, t.isEnd = false := by
  intro t ht
  apply isEnd_eq_false_of_kind
  intro hkind
  exact h (hkind ▸ List.mem_map_of_mem ht)

theorem DerivesExpr.not_isEnd {form : Form} {ts : List Token} {e : Expr}
    (h : DerivesExpr place form ts e) : ∀ t ∈ ts, t.isEnd = false :=
  not_isEnd_of_not_mem h.sentence.not_mem_end

theorem DerivesStmt.not_isEnd {ts : List Token} {s : Stmt} (h : DerivesStmt place ts s) :
    ∀ t ∈ ts, t.isEnd = false :=
  not_isEnd_of_not_mem h.sentence.not_mem_end

theorem DerivesExpr.ne_nil {form : Form} {ts : List Token} {e : Expr}
    (h : DerivesExpr place form ts e) : ts ≠ [] := by
  have hne := h.sentence.ne_nil
  simpa using hne

theorem DerivesStmt.ne_nil {ts : List Token} {s : Stmt} (h : DerivesStmt place ts s) :
    ts ≠ [] := by
  cases h <;> simp

/-! ## The nearest `if` -/

/-- An `else` after a statement that ends in an open `if` can be given to the innermost one. -/
theorem DerivesStmt.attach {e : Token} {vs : List Token} {b : Stmt} (he : e.kind = .symbol .else_)
    (hb : DerivesStmt place vs b) (hbn : b.NearestElse) :
    ∀ {us : List Token} {a : Stmt}, DerivesStmt place us a → a.NearestElse → a.EndsOpen →
      ∃ s, DerivesStmt place (us ++ e :: vs) s ∧ s.NearestElse
  | _, _, .expr _ _, _, hopen => hopen.elim
  | _, _, .ret _ _ _, _, hopen => hopen.elim
  | _, _, .block _ _ _, _, hopen => hopen.elim
  | _, _, .ifThen (t := t) (c := c) (a := a) ht hl hc hr ha, hn, _ => by
      by_cases hopen : a.EndsOpen
      · obtain ⟨s, hs, hsn⟩ := DerivesStmt.attach he hb hbn ha hn hopen
        exact ⟨.ifThen t.location c s, by simpa using DerivesStmt.ifThen ht hl hc hr hs, hsn⟩
      · exact ⟨.ifElse t.location c a b,
          by simpa using DerivesStmt.ifElse ht hl hc hr ha he hb, hopen, hn, hbn⟩
  | _, _, .ifElse (t := t) (c := c) (a := a) ht hl hc hr ha hf hd, hn, hopen => by
      obtain ⟨s, hs, hsn⟩ := DerivesStmt.attach he hb hbn hd hn.2.2 hopen
      exact ⟨.ifElse t.location c a s,
        by simpa using DerivesStmt.ifElse ht hl hc hr ha hf hs, hn.1, hn.2.1, hsn⟩
  | _, _, .while_ (t := t) (c := c) ht hl hc hr ha, hn, hopen => by
      obtain ⟨s, hs, hsn⟩ := DerivesStmt.attach he hb hbn ha hn hopen
      exact ⟨.while_ t.location c s, by simpa using DerivesStmt.while_ ht hl hc hr hs, hsn⟩
  | _, _, .for_ (t := t) (i := i) (c := c) (u := u) ht hl hi hm hc hk hu hr ha, hn, hopen => by
      obtain ⟨s, hs, hsn⟩ := DerivesStmt.attach he hb hbn ha hn hopen
      exact ⟨.for_ t.location i c u s,
        by simpa using DerivesStmt.for_ ht hl hi hm hc hk hu hr hs, hsn⟩

mutual

theorem DerivesStmt.nearest : ∀ {ts : List Token} {s : Stmt}, DerivesStmt place ts s →
    ∃ s', DerivesStmt place ts s' ∧ s'.NearestElse
  | _, _, .expr he hs => ⟨_, .expr he hs, trivial⟩
  | _, _, .ret ht he hs => ⟨_, .ret ht he hs, trivial⟩
  | _, _, .ifThen ht hl hc hr ha => by
      obtain ⟨a', ha', hn⟩ := ha.nearest
      exact ⟨_, .ifThen ht hl hc hr ha', hn⟩
  | _, _, .ifElse ht hl hc hr ha he hb => by
      obtain ⟨a', ha', han⟩ := ha.nearest
      obtain ⟨b', hb', hbn⟩ := hb.nearest
      by_cases hopen : a'.EndsOpen
      · obtain ⟨s, hs, hsn⟩ := DerivesStmt.attach he hb' hbn ha' han hopen
        exact ⟨_, .ifThen ht hl hc hr hs, hsn⟩
      · exact ⟨_, .ifElse ht hl hc hr ha' he hb', hopen, han, hbn⟩
  | _, _, .while_ ht hl hc hr ha => by
      obtain ⟨a', ha', hn⟩ := ha.nearest
      exact ⟨_, .while_ ht hl hc hr ha', hn⟩
  | _, _, .for_ ht hl hi hm hc hk hu hr ha => by
      obtain ⟨a', ha', hn⟩ := ha.nearest
      exact ⟨_, .for_ ht hl hi hm hc hk hu hr ha', hn⟩
  | _, _, .block hl hss hr => by
      obtain ⟨ss', hss', hn⟩ := hss.nearest
      exact ⟨_, .block hl hss' hr, hn⟩

theorem DerivesProgram.nearest : ∀ {ts : List Token} {ss : List Stmt}, DerivesProgram place ts ss →
    ∃ ss', DerivesProgram place ts ss' ∧ AllNearestElse ss'
  | _, _, .nil => ⟨[], .nil, trivial⟩
  | _, _, .cons hs hss => by
      obtain ⟨s', hs', hn⟩ := hs.nearest
      obtain ⟨ss', hss', hns⟩ := hss.nearest
      exact ⟨_, .cons hs' hss', hn, hns⟩

end

end Grammar

end StackLang
