import StackLang.Proofs.ParseExpr

/-!
# Reading statements

The readers of statements and programs accept what the grammar derives with every `else` at the
nearest `if`, and nothing else. An `else` after a statement that ends in an open `if` would have
been read with it, which is why the trees that come out have this form.
-/

namespace StackLang

namespace Grammar

/-- The classes of tokens with which an expression starts. -/
def starters : List Kind :=
  [.number, .identifier, .symbol .leftParen, .symbol .plus, .symbol .minus]

theorem TargetSentence.starts {ks : List Kind} (h : TargetSentence ks) :
    ∃ k ls, ks = k :: ls ∧ k ∈ starters := by
  cases h with
  | name hsign =>
      rcases hsign with rfl | rfl
      · exact ⟨_, _, rfl, by decide⟩
      · exact ⟨_, _, rfl, by decide⟩
  | parentheses hsign _ =>
      rcases hsign with rfl | rfl
      · exact ⟨_, _, rfl, by decide⟩
      · exact ⟨_, _, rfl, by decide⟩

theorem ExprSentence.starts {form : Form} {ks : List Kind} (h : ExprSentence form ks) :
    ∃ k ls, ks = k :: ls ∧ k ∈ starters := by
  induction h with
  | number | name | parentheses _ _ | plus _ _ | minus _ _ => exact ⟨_, _, rfl, by decide⟩
  | unsigned _ ih | operand _ ih | equality _ ih => exact ih
  | operator _ _ _ ih _ =>
      obtain ⟨k, ls, rfl, hk⟩ := ih
      exact ⟨k, _, rfl, hk⟩
  | assignment ht _ _ =>
      obtain ⟨k, ls, rfl, hk⟩ := ht.starts
      exact ⟨k, _, rfl, hk⟩

theorem DerivesExpr.starts {place : String → Int} {form : Form} {ts : List Token} {e : Expr}
    (h : DerivesExpr place form ts e) : ∃ t us, ts = t :: us ∧ t.kind ∈ starters := by
  obtain ⟨k, ls, hks, hk⟩ := h.sentence.starts
  obtain ⟨t, us, rfl, rfl, -⟩ := map_kind_eq_cons hks
  exact ⟨t, us, rfl, hk⟩

end Grammar

namespace Parse

open Grammar

/-! ## Parts of statements -/

theorem condition_sound {expression : Parse Expr} (hx : Sound .expression expression)
    {c c' : Cursor} {e : Expr} (hc : c.Closed) (h : condition expression c = .ok e c') :
    ∃ l ts r, Reads c c' (l :: (ts ++ [r])) ∧ c'.Closed ∧ l.kind = .symbol .leftParen ∧
      r.kind = .symbol .rightParen ∧
      ∀ place, Agrees place c'.slots → DerivesExpr place .expression ts e := by
  unfold condition at h
  simp only [bind_ok_iff, pure_ok_iff] at h
  obtain ⟨_, d, hl, e', d', he, _, d'', hr, rfl, rfl⟩ := h
  obtain ⟨hls, hlr⟩ := expect_reads hc hl
  have hcd := hlr.closed hc (by simpa using not_isEnd_of_isSymbol hls)
  obtain ⟨ts, hts, hd⟩ := hx hcd he
  have hcd' := hx.closed hcd he
  obtain ⟨hrs, hrr⟩ := expect_reads hcd' hr
  exact ⟨_, ts, _, hlr.trans (hts.trans hrr),
    hrr.closed hcd' (by simpa using not_isEnd_of_isSymbol hrs), kind_eq_symbol_iff.mpr hls,
    kind_eq_symbol_iff.mpr hrs, fun place hp => hd place (hp.of_reads hrr)⟩

theorem condition_complete {bound : Nat} {expression : Parse Expr}
    (hx : Complete .expression bound expression) {place : String → Int} {c c' : Cursor}
    {l r : Token} {ts us : List Token} {e : Expr} (hl : l.kind = .symbol .leftParen)
    (hd : DerivesExpr place .expression ts e) (hr : r.kind = .symbol .rightParen)
    (hlen : ts.length ≤ bound) (hreads : Reads c c' (l :: (ts ++ r :: us)))
    (hp : Agrees place c'.slots) : ∃ d, condition expression c = .ok e d ∧ Reads d c' us := by
  obtain ⟨d, hd₁, hrest⟩ := hreads.split_cons
  obtain ⟨d', hd₂, hrest'⟩ := hrest.split
  obtain ⟨d'', hd₃, hd₄⟩ := hrest'.split_cons
  have hends : Ends .expression d'.current := by
    rw [hd₃.current]
    exact ends_of_symbol hr (by decide)
  refine ⟨d'', ?_, hd₄⟩
  unfold condition
  rw [bind_of_ok (expect_of_reads hd₁ (kind_eq_symbol_iff.mp hl)),
    bind_of_ok (hx hd hlen hd₂ (hp.of_reads hrest') hends),
    bind_of_ok (expect_of_reads hd₃ (kind_eq_symbol_iff.mp hr))]
  rfl

theorem clause_eq (expression : Parse Expr) (close : Symbol) (c : Cursor) :
    clause expression close c =
      if c.current.isSymbol close then
        (do
          expect close
          return none : Parse (Option Expr)) c
      else
        (do
          let e ← some <$> expression
          expect close
          return e : Parse (Option Expr)) c := by
  unfold clause
  rw [bind_of_ok (at?_eq close c)]
  cases c.current.isSymbol close <;> rfl

theorem clause_sound {expression : Parse Expr} (hx : Sound .expression expression)
    {close : Symbol} {c c' : Cursor} {e : Option Expr} (hc : c.Closed)
    (h : clause expression close c = .ok e c') :
    ∃ ts r, Reads c c' (ts ++ [r]) ∧ c'.Closed ∧ r.kind = .symbol close ∧
      ∀ place, Agrees place c'.slots → DerivesClause place ts e := by
  rw [clause_eq] at h
  split at h
  · simp only [bind_ok_iff, pure_ok_iff] at h
    obtain ⟨_, d, hr, rfl, rfl⟩ := h
    obtain ⟨hrs, hrr⟩ := expect_reads hc hr
    exact ⟨[], _, hrr, hrr.closed hc (by simpa using not_isEnd_of_isSymbol hrs),
      kind_eq_symbol_iff.mpr hrs, fun _ _ => .absent⟩
  · simp only [bind_ok_iff, map_ok_iff, pure_ok_iff] at h
    obtain ⟨_, d, ⟨e', he, rfl⟩, _, d', hr, rfl, rfl⟩ := h
    obtain ⟨ts, hts, hd⟩ := hx hc he
    have hcd := hx.closed hc he
    obtain ⟨hrs, hrr⟩ := expect_reads hcd hr
    exact ⟨ts, _, hts.trans hrr, hrr.closed hcd (by simpa using not_isEnd_of_isSymbol hrs),
      kind_eq_symbol_iff.mpr hrs, fun place hp => .present (hd place (hp.of_reads hrr))⟩

theorem clause_complete {bound : Nat} {expression : Parse Expr}
    (hx : Complete .expression bound expression) {place : String → Int} {close : Symbol}
    (hcont : close ∉ continuations .expression) (hstart : .symbol close ∉ starters)
    {c c' : Cursor} {ts us : List Token} {r : Token} {e : Option Expr}
    (hd : DerivesClause place ts e) (hr : r.kind = .symbol close) (hlen : ts.length ≤ bound)
    (hreads : Reads c c' (ts ++ r :: us)) (hp : Agrees place c'.slots) :
    ∃ d, clause expression close c = .ok e d ∧ Reads d c' us := by
  have hsym := kind_eq_symbol_iff.mp hr
  obtain ⟨d, hd₁, hrest⟩ := hreads.split
  obtain ⟨d', hd₂, hd₃⟩ := hrest.split_cons
  refine ⟨d', ?_, hd₃⟩
  rw [clause_eq]
  cases hd with
  | absent =>
      rw [hreads.current, hsym]
      simp only [↓reduceIte]
      rw [bind_of_ok (expect_of_reads (hd₁.trans hd₂) hsym)]
      rfl
  | present hd =>
      obtain ⟨t, us, rfl, ht⟩ := hd.starts
      have hno : c.current.isSymbol close = false := by
        rw [hd₁.current, ← Bool.not_eq_true, ← kind_eq_symbol_iff]
        intro hkind
        exact hstart (hkind ▸ ht)
      have hends : Ends .expression d.current := by
        rw [hd₂.current]
        exact ends_of_symbol hr hcont
      have hrun : (some <$> expression) c = .ok (some _) d :=
        map_ok_iff.mpr ⟨_, hx hd hlen hd₁ (hp.of_reads hrest) hends, rfl⟩
      rw [hno]
      simp only [Bool.false_eq_true, ↓reduceIte]
      rw [bind_of_ok hrun, bind_of_ok (expect_of_reads hd₂ hsym)]
      rfl

/-! ## Soundness -/

/-- What is read as a statement has a derivation, and no `else` could follow an open `if`. -/
structure SoundRead (c c' : Cursor) (s : Stmt) : Prop where
  derives : ∃ ts, Reads c c' ts ∧ ∀ place, Agrees place c'.slots → DerivesStmt place ts s
  nearest : s.NearestElse
  noElse : s.EndsOpen → c'.current.isSymbol .else_ = false

def SoundStmt (p : Parse Stmt) : Prop :=
  ∀ ⦃c c' : Cursor⦄ ⦃s : Stmt⦄, c.Closed → p c = .ok s c' → SoundRead c c' s

theorem SoundStmt.closed {p : Parse Stmt} (hp : SoundStmt p) {c c' : Cursor} {s : Stmt}
    (hc : c.Closed) (h : p c = .ok s c') : c'.Closed := by
  obtain ⟨ts, hr, hd⟩ := (hp hc h).derives
  exact hr.closed hc (hd _ (agrees_place c'.slots)).not_isEnd

theorem blockBody_succ (statement : Parse Stmt) (bound : Nat) (c : Cursor) :
    blockBody statement (bound + 1) c =
      if c.current.isSymbol .rightBrace then .ok [] c.advance
      else if c.current.isEnd then unexpected (.symbol .rightBrace) c
      else
        (do
          let first ← statement
          let rest ← blockBody statement bound
          return first :: rest : Parse (List Stmt)) c := by
  rw [blockBody, bind_of_ok (at?_eq _ c)]
  cases c.current.isSymbol .rightBrace with
  | true => rfl
  | false =>
      simp only [Bool.false_eq_true, ↓reduceIte]
      rw [bind_of_ok (peek_eq c)]
      cases c.current.isEnd <;> rfl

theorem blockBody_sound {statement : Parse Stmt} (hs : SoundStmt statement) (bound : Nat)
    {c c' : Cursor} {ss : List Stmt} (hc : c.Closed)
    (h : blockBody statement bound c = .ok ss c') :
    (∃ ts r, Reads c c' (ts ++ [r]) ∧ r.kind = .symbol .rightBrace ∧
      ∀ place, Agrees place c'.slots → DerivesProgram place ts ss) ∧ AllNearestElse ss := by
  induction bound generalizing c ss with
  | zero => exact absurd h (unexpected_ne_ok _ _ _ _)
  | succ bound ih =>
      rw [blockBody_succ] at h
      split at h
      · next hr =>
        cases h
        have hkind := kind_eq_symbol_iff.mpr hr
        exact ⟨⟨[], _, (reads_symbol hc hkind).1, hkind, fun _ _ => .nil⟩, trivial⟩
      · split at h
        · exact absurd h (unexpected_ne_ok _ _ _ _)
        · simp only [bind_ok_iff, pure_ok_iff] at h
          obtain ⟨first, d, hfirst, rest, d', hrest, rfl, rfl⟩ := h
          have hread := hs hc hfirst
          obtain ⟨ts, hts, hd⟩ := hread.derives
          obtain ⟨⟨us, r, hus, hr, hds⟩, hn⟩ := ih (hs.closed hc hfirst) hrest
          refine ⟨⟨ts ++ us, r, ?_, hr, fun place hp => ?_⟩, hread.nearest, hn⟩
          · simpa using hts.trans hus
          · exact .cons (hd place (hp.of_reads hus)) (hds place hp)

theorem statementForm_eq (bound : Nat) (expression : Parse Expr) (statement : Parse Stmt)
    (c : Cursor) :
    statementForm bound expression statement c =
      match c.current.lexeme with
      | .symbol .return_ _ =>
        (do
          let value ← expression
          expect .semicolon
          return .ret c.current.location value : Parse Stmt) c.advance
      | .symbol .if_ _ =>
        (do
          let condition ← condition expression
          let body ← statement
          if ← at? .else_ then
            advance
            return .ifElse c.current.location condition body (← statement)
          else return .ifThen c.current.location condition body : Parse Stmt) c.advance
      | .symbol .while_ _ =>
        (do
          let condition ← condition expression
          return .while_ c.current.location condition (← statement) : Parse Stmt) c.advance
      | .symbol .for_ _ =>
        (do
          expect .leftParen
          let i ← clause expression .semicolon
          let condition ← clause expression .semicolon
          let u ← clause expression .rightParen
          return .for_ c.current.location i condition u (← statement) : Parse Stmt) c.advance
      | .symbol .leftBrace _ =>
        (do
          return .block c.current.location (← blockBody statement bound) : Parse Stmt) c.advance
      | _ =>
        (do
          let value ← expression
          expect .semicolon
          return .expr c.current.location value : Parse Stmt) c := by
  unfold statementForm
  rw [bind_of_ok (peek_eq c)]
  cases c.current.lexeme with
  | symbol s text => cases s <;> rfl
  | identifier name => rfl
  | number value => rfl
  | endOfInput => rfl

theorem if_sound {expression : Parse Expr} {statement : Parse Stmt}
    (hx : Sound .expression expression) (hs : SoundStmt statement) {c c' : Cursor} {s : Stmt}
    (hc : c.Closed) (ht : c.current.kind = .symbol .if_)
    (h : (do
      let condition ← condition expression
      let body ← statement
      if ← at? .else_ then
        advance
        return .ifElse c.current.location condition body (← statement)
      else return .ifThen c.current.location condition body : Parse Stmt) c.advance = .ok s c') :
    SoundRead c c' s := by
  obtain ⟨hr, hca⟩ := reads_symbol hc ht
  obtain ⟨e, d, he, h⟩ := bind_ok_iff.mp h
  obtain ⟨body, d', hbody, h⟩ := bind_ok_iff.mp h
  obtain ⟨l, ts, r, hcond, hcd, hl, hrp, hde⟩ := condition_sound hx hca he
  have hread := hs hcd hbody
  obtain ⟨us, hus, hdb⟩ := hread.derives
  have hcd' := hs.closed hcd hbody
  rw [bind_of_ok (at?_eq _ d')] at h
  cases helse : d'.current.isSymbol .else_ with
  | true =>
      rw [helse] at h
      simp only [↓reduceIte] at h
      rw [bind_of_ok (advance_eq d')] at h
      simp only [bind_ok_iff, pure_ok_iff] at h
      obtain ⟨other, d'', hother, rfl, rfl⟩ := h
      have hkind := kind_eq_symbol_iff.mpr helse
      obtain ⟨hre, hcde⟩ := reads_symbol hcd' hkind
      have hread' := hs hcde hother
      obtain ⟨vs, hvs, hdo⟩ := hread'.derives
      have hclosed : ¬ body.EndsOpen := by
        intro hopen
        simp [hread.noElse hopen] at helse
      refine ⟨⟨_, hr.trans (hcond.trans (hus.trans (hre.trans hvs))), fun place hp => ?_⟩,
        ⟨hclosed, hread.nearest, hread'.nearest⟩, hread'.noElse⟩
      have hpd' := (hp.of_reads hvs).of_reads hre
      simpa using DerivesStmt.ifElse ht hl (hde place (hpd'.of_reads hus)) hrp (hdb place hpd')
        hkind (hdo place hp)
  | false =>
      rw [helse] at h
      simp only [Bool.false_eq_true, ↓reduceIte, pure_ok_iff] at h
      obtain ⟨rfl, rfl⟩ := h
      refine ⟨⟨_, hr.trans (hcond.trans hus), fun place hp => ?_⟩, hread.nearest, fun _ => helse⟩
      simpa using DerivesStmt.ifThen ht hl (hde place (hp.of_reads hus)) hrp (hdb place hp)

theorem statementForm_sound {bound : Nat} {expression : Parse Expr} {statement : Parse Stmt}
    (hx : Sound .expression expression) (hs : SoundStmt statement) :
    SoundStmt (statementForm bound expression statement) := by
  intro c c' s hc h
  rw [statementForm_eq] at h
  split at h
  · next text hlex =>
    simp only [bind_ok_iff, pure_ok_iff] at h
    obtain ⟨e, d, he, _, d', hsemi, rfl, rfl⟩ := h
    have ht := kind_of_symbol hlex
    obtain ⟨hr, hca⟩ := reads_symbol hc ht
    obtain ⟨ts, hts, hd⟩ := hx hca he
    obtain ⟨hss, hsr⟩ := expect_reads (hx.closed hca he) hsemi
    refine ⟨⟨_, hr.trans (hts.trans hsr), fun place hp => ?_⟩, trivial, False.elim⟩
    exact .ret ht (hd place (hp.of_reads hsr)) (kind_eq_symbol_iff.mpr hss)
  · next text hlex => exact if_sound hx hs hc (kind_of_symbol hlex) h
  · next text hlex =>
    simp only [bind_ok_iff, pure_ok_iff] at h
    obtain ⟨e, d, he, body, d', hbody, rfl, rfl⟩ := h
    have ht := kind_of_symbol hlex
    obtain ⟨hr, hca⟩ := reads_symbol hc ht
    obtain ⟨l, ts, r, hcond, hcd, hl, hrp, hde⟩ := condition_sound hx hca he
    have hread := hs hcd hbody
    obtain ⟨us, hus, hdb⟩ := hread.derives
    refine ⟨⟨_, hr.trans (hcond.trans hus), fun place hp => ?_⟩, hread.nearest, hread.noElse⟩
    simpa using DerivesStmt.while_ ht hl (hde place (hp.of_reads hus)) hrp (hdb place hp)
  · next text hlex =>
    simp only [bind_ok_iff, pure_ok_iff] at h
    obtain ⟨_, d₀, hopen, i, d₁, hi, e, d₂, he, u, d₃, hu, body, d₄, hbody, rfl, rfl⟩ := h
    have ht := kind_of_symbol hlex
    obtain ⟨hr, hca⟩ := reads_symbol hc ht
    obtain ⟨hls, hlr⟩ := expect_reads hca hopen
    have hc₀ := hlr.closed hca (by simpa using not_isEnd_of_isSymbol hls)
    obtain ⟨is, m, his, hc₁, hm, hdi⟩ := clause_sound hx hc₀ hi
    obtain ⟨cs, n, hcs, hc₂, hn, hdc⟩ := clause_sound hx hc₁ he
    obtain ⟨us, r, hus, hc₃, hrp, hdu⟩ := clause_sound hx hc₂ hu
    have hread := hs hc₃ hbody
    obtain ⟨vs, hvs, hdb⟩ := hread.derives
    refine ⟨⟨_, hr.trans (hlr.trans (his.trans (hcs.trans (hus.trans hvs)))), fun place hp => ?_⟩,
      hread.nearest, hread.noElse⟩
    have hp₃ := hp.of_reads hvs
    have hp₂ := hp₃.of_reads hus
    have hp₁ := hp₂.of_reads hcs
    simpa using DerivesStmt.for_ ht (kind_eq_symbol_iff.mpr hls) (hdi place hp₁) hm (hdc place hp₂)
      hn (hdu place hp₃) hrp (hdb place hp)
  · next text hlex =>
    simp only [bind_ok_iff, pure_ok_iff] at h
    obtain ⟨ss, d, hbody, rfl, rfl⟩ := h
    have ht := kind_of_symbol hlex
    obtain ⟨hr, hca⟩ := reads_symbol hc ht
    obtain ⟨⟨ts, r, hts, hrb, hd⟩, hn⟩ := blockBody_sound hs bound hca hbody
    exact ⟨⟨_, hr.trans hts, fun place hp => .block ht (hd place hp) hrb⟩, hn, False.elim⟩
  · simp only [bind_ok_iff, pure_ok_iff] at h
    obtain ⟨e, d, he, _, d', hsemi, rfl, rfl⟩ := h
    obtain ⟨ts, hts, hd⟩ := hx hc he
    obtain ⟨hss, hsr⟩ := expect_reads (hx.closed hc he) hsemi
    obtain ⟨t, us, rfl, -⟩ := (hd _ (agrees_place d.slots)).starts
    refine ⟨⟨_, hts.trans hsr, fun place hp => ?_⟩, trivial, False.elim⟩
    rw [hts.current]
    exact .expr (hd place (hp.of_reads hsr)) (kind_eq_symbol_iff.mpr hss)

theorem statement_sound (bound : Nat) : SoundStmt (statement bound) := by
  induction bound with
  | zero =>
      intro c c' s _ h
      exact absurd h (unexpected_ne_ok _ _ _ _)
  | succ bound ih => exact statementForm_sound (expression_sound _) ih

/-! ## Completeness -/

def CompleteStmt (bound : Nat) (p : Parse Stmt) : Prop :=
  ∀ ⦃place : String → Int⦄ ⦃c c' : Cursor⦄ ⦃ts : List Token⦄ ⦃s : Stmt⦄,
    DerivesStmt place ts s → s.NearestElse → ts.length ≤ bound → Reads c c' ts →
    Agrees place c'.slots → (s.EndsOpen → c'.current.isSymbol .else_ = false) → p c = .ok s c'

/-- No statement starts with a symbol that could go on with or close what stands before it. -/
theorem stmt_starts {place : String → Int} {ts : List Token} {s : Stmt}
    (h : DerivesStmt place ts s) :
    ∃ t us, ts = t :: us ∧ t.kind ≠ .symbol .else_ ∧ t.kind ≠ .symbol .rightBrace := by
  cases h with
  | expr he _ =>
      obtain ⟨t, us, hts, ht⟩ := he.starts
      obtain ⟨rfl, rfl⟩ := List.cons.inj hts
      refine ⟨_, _, rfl, ?_, ?_⟩
      · intro hkind
        rw [hkind] at ht
        exact absurd ht (by decide)
      · intro hkind
        rw [hkind] at ht
        exact absurd ht (by decide)
  | ret ht _ _ | ifThen ht _ _ _ _ | ifElse ht _ _ _ _ _ _ | while_ ht _ _ _ _
  | for_ ht _ _ _ _ _ _ _ _ | block ht _ _ => exact ⟨_, _, rfl, by simp [ht], by simp [ht]⟩

theorem program_follow {place : String → Int} {ts : List Token} {ss : List Stmt} {c c' : Cursor}
    (h : DerivesProgram place ts ss) (hr : Reads c c' ts)
    (hend : c'.current.isSymbol .else_ = false) : c.current.isSymbol .else_ = false := by
  cases h with
  | nil => rw [hr.eq_of_nil]; exact hend
  | cons hs _ =>
      obtain ⟨t, us, rfl, hne, -⟩ := stmt_starts hs
      rw [hr.current, ← Bool.not_eq_true, ← kind_eq_symbol_iff]
      exact hne

theorem blockBody_complete {limit : Nat} {statement : Parse Stmt}
    (hs : CompleteStmt limit statement) {place : String → Int} (bound : Nat) {c c' : Cursor}
    {ts : List Token} {ss : List Stmt} {r : Token} (hd : DerivesProgram place ts ss)
    (hn : AllNearestElse ss) (hlimit : ts.length ≤ limit) (hbound : ts.length < bound)
    (hr : r.kind = .symbol .rightBrace) (hreads : Reads c c' (ts ++ [r]))
    (hp : Agrees place c'.slots) : blockBody statement bound c = .ok ss c' := by
  induction bound generalizing c ts ss with
  | zero => omega
  | succ bound ih =>
      rw [blockBody_succ]
      cases hd with
      | nil =>
          rw [hreads.current, kind_eq_symbol_iff.mp hr, advance_of_reads hreads hr]
          rfl
      | @cons ts s us ss hst hss =>
          rw [List.append_assoc] at hreads
          simp only [List.length_append] at hlimit hbound
          obtain ⟨d, hd₁, hd₂⟩ := hreads.split
          obtain ⟨d', hd₃, hd₄⟩ := hd₂.split
          have hpos : 0 < ts.length := List.length_pos_iff.mpr hst.ne_nil
          have hrelse : d'.current.isSymbol .else_ = false := by
            rw [hd₄.current, ← Bool.not_eq_true, ← kind_eq_symbol_iff, hr]
            decide
          have hfirst := hs hst hn.1 (by omega) hd₁ (hp.of_reads hd₂)
            (fun _ => program_follow hss hd₃ hrelse)
          have hrest := ih hss hn.2 (by omega) (by omega) hd₂
          have hnotEnd := hst.not_isEnd
          obtain ⟨t, vs, rfl, -, hbrace⟩ := stmt_starts hst
          have hno : c.current.isSymbol .rightBrace = false := by
            rw [hd₁.current, ← Bool.not_eq_true, ← kind_eq_symbol_iff]
            exact hbrace
          have hend : c.current.isEnd = false := by
            rw [hd₁.current]
            exact hnotEnd t List.mem_cons_self
          rw [hno, hend]
          simp only [Bool.false_eq_true, ↓reduceIte]
          rw [bind_of_ok hfirst, bind_of_ok hrest]
          rfl

theorem simple_complete {bound : Nat} {expression : Parse Expr}
    (hx : Complete .expression bound expression) {place : String → Int} {c c' : Cursor}
    {ts : List Token} {s : Token} {e : Expr} (hd : DerivesExpr place .expression ts e)
    (hs : s.kind = .symbol .semicolon) (hlen : ts.length ≤ bound) (hreads : Reads c c' (ts ++ [s]))
    (hp : Agrees place c'.slots) (make : Expr → Stmt) :
    (do
      let value ← expression
      expect .semicolon
      return make value : Parse Stmt) c = .ok (make e) c' := by
  obtain ⟨d, hd₁, hd₂⟩ := hreads.split
  have hends : Ends .expression d.current := by
    rw [hd₂.current]
    exact ends_of_symbol hs (by decide)
  rw [bind_of_ok (hx hd hlen hd₁ (hp.of_reads hd₂) hends),
    bind_of_ok (expect_of_reads hd₂ (kind_eq_symbol_iff.mp hs))]
  rfl

theorem statementForm_complete {bound : Nat} {expression : Parse Expr} {statement : Parse Stmt}
    (hx : Complete .expression (bound + 1) expression) (hs : CompleteStmt bound statement) :
    CompleteStmt (bound + 1) (statementForm bound expression statement) := by
  intro place c c' ts s hd hn hlen hr hp helse
  rw [statementForm_eq]
  cases hd with
  | @expr t us e s he hsemi =>
      obtain ⟨t', us', hts, ht'⟩ := he.starts
      obtain ⟨rfl, rfl⟩ := List.cons.inj hts
      have hrun := simple_complete hx he hsemi (by simp at hlen ⊢; omega) hr hp
        (Stmt.expr t.location)
      rw [hr.current]
      split
      · next hlex => exact absurd (kind_of_symbol hlex ▸ ht') (by decide)
      · next hlex => exact absurd (kind_of_symbol hlex ▸ ht') (by decide)
      · next hlex => exact absurd (kind_of_symbol hlex ▸ ht') (by decide)
      · next hlex => exact absurd (kind_of_symbol hlex ▸ ht') (by decide)
      · next hlex => exact absurd (kind_of_symbol hlex ▸ ht') (by decide)
      · exact hrun
  | @ret t us e s ht he hsemi =>
      obtain ⟨d, hd₁, hd₂⟩ := hr.split_cons
      obtain ⟨text, htext⟩ := lexeme_of_kind ht
      rw [hr.current, htext, advance_of_reads hd₁ ht]
      exact simple_complete hx he hsemi (by simp at hlen; omega) hd₂ hp (Stmt.ret t.location)
  | @ifThen t l us e r vs a ht hl he hrp ha =>
      obtain ⟨d, hd₁, hd₂⟩ := hr.split_cons
      obtain ⟨text, htext⟩ := lexeme_of_kind ht
      simp only [List.length_cons, List.length_append] at hlen
      obtain ⟨d', hcond, hd₃⟩ := condition_complete hx hl he hrp (by omega) hd₂ hp
      have hbody := hs ha hn (by omega) hd₃ hp (fun _ => helse trivial)
      rw [hr.current, htext, advance_of_reads hd₁ ht]
      simp only []
      rw [bind_of_ok hcond, bind_of_ok hbody, bind_of_ok (at?_eq _ c'), helse trivial]
      rfl
  | @ifElse t l us e r vs a k ws b ht hl he hrp ha hk hb =>
      obtain ⟨d, hd₁, hd₂⟩ := hr.split_cons
      obtain ⟨text, htext⟩ := lexeme_of_kind ht
      simp only [List.length_cons, List.length_append] at hlen
      obtain ⟨d', hcond, hrest⟩ := condition_complete hx hl he hrp (by omega) hd₂ hp
      obtain ⟨d'', hd₃, hrest'⟩ := hrest.split
      obtain ⟨d₃, hd₄, hd₅⟩ := hrest'.split_cons
      have hbody := hs ha hn.2.1 (by omega) hd₃ (hp.of_reads hrest') (fun ho => absurd ho hn.1)
      have hother := hs hb hn.2.2 (by omega) hd₅ hp helse
      rw [hr.current, htext, advance_of_reads hd₁ ht]
      simp only []
      rw [bind_of_ok hcond, bind_of_ok hbody, bind_of_ok (at?_eq _ d''), hd₄.current,
        kind_eq_symbol_iff.mp hk]
      simp only [↓reduceIte]
      rw [bind_of_ok (advance_eq d''), advance_of_reads hd₄ hk, bind_of_ok hother]
      rfl
  | @while_ t l us e r vs a ht hl he hrp ha =>
      obtain ⟨d, hd₁, hd₂⟩ := hr.split_cons
      obtain ⟨text, htext⟩ := lexeme_of_kind ht
      simp only [List.length_cons, List.length_append] at hlen
      obtain ⟨d', hcond, hd₃⟩ := condition_complete hx hl he hrp (by omega) hd₂ hp
      have hbody := hs ha hn (by omega) hd₃ hp helse
      rw [hr.current, htext, advance_of_reads hd₁ ht]
      simp only []
      rw [bind_of_ok hcond, bind_of_ok hbody]
      rfl
  | @for_ t l is i m cs e n us u r vs a ht hl hi hm he hsn hu hrp ha =>
      obtain ⟨d, hd₁, hrest⟩ := hr.split_cons
      obtain ⟨d₀, hd₂, hd₃⟩ := hrest.split_cons
      obtain ⟨text, htext⟩ := lexeme_of_kind ht
      simp only [List.length_cons, List.length_append] at hlen
      obtain ⟨d₁, hrun₁, hd₄⟩ :=
        clause_complete hx (by decide) (by decide) hi hm (by omega) hd₃ hp
      obtain ⟨d₂, hrun₂, hd₅⟩ :=
        clause_complete hx (by decide) (by decide) he hsn (by omega) hd₄ hp
      obtain ⟨d₃, hrun₃, hd₆⟩ :=
        clause_complete hx (by decide) (by decide) hu hrp (by omega) hd₅ hp
      have hbody := hs ha hn (by omega) hd₆ hp helse
      rw [hr.current, htext, advance_of_reads hd₁ ht]
      simp only []
      rw [bind_of_ok (expect_of_reads hd₂ (kind_eq_symbol_iff.mp hl)), bind_of_ok hrun₁,
        bind_of_ok hrun₂, bind_of_ok hrun₃, bind_of_ok hbody]
      rfl
  | @block l us ss r hl hss hrb =>
      obtain ⟨d, hd₁, hd₂⟩ := hr.split_cons
      obtain ⟨text, htext⟩ := lexeme_of_kind hl
      simp only [List.length_cons, List.length_append, List.length_nil] at hlen
      have hbody := blockBody_complete hs bound hss hn (by omega) (by omega) hrb hd₂ hp
      rw [hr.current, htext, advance_of_reads hd₁ hl]
      simp only []
      rw [bind_of_ok hbody]
      rfl

theorem statement_complete (bound : Nat) : CompleteStmt bound (statement bound) := by
  induction bound with
  | zero =>
      intro place c c' ts s hd _ hlen _ _ _
      exact absurd (List.length_eq_zero_iff.mp (by omega)) hd.ne_nil
  | succ bound ih => exact statementForm_complete (expression_complete _) ih

end Parse

end StackLang
