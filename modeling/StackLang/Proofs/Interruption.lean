import StackLang.Proofs.ParseProgram

/-!
# Readers that fail

A reader fails as soon as no sentence goes on with the token at its cursor: what it has read by then
can still be completed to a sentence. The fault names that token, except for an expression that
cannot be assigned to, where it names the first token of the expression.
-/

namespace StackLang

namespace Grammar

/-- The token that a fault is reported at, when `ts` was read of a form with the sentences `S` and
`t` comes next. What stands before an assignment sign is an expression at a place where any
expression could stand. -/
inductive Blames (S : List Kind → Prop) (ts : List Token) (t : Token) :
    ParseFault → Token → Prop where
  | unexpected (expected : Expected) : Blames S ts t (.unexpected expected t) t
  | assignmentTarget {before left : List Token} {start : Token} :
      t.kind = .symbol .assign → ts = before ++ left → left.head? = some start →
      ExprSentence (.level .equality) (left.map Token.kind) →
      (∀ ks, ExprSentence .expression ks → ∃ us, S (before.map Token.kind ++ ks ++ us)) →
      Blames S ts t (.assignmentTarget start) start

namespace Blames

variable {S : List Kind → Prop} {ts : List Token} {t blamed : Token} {fault : ParseFault}

theorem mem (h : Blames S ts t fault blamed) : blamed ∈ ts ++ [t] := by
  cases h with
  | unexpected expected => exact List.mem_append_right _ (List.mem_singleton_self t)
  | assignmentTarget _ hts hstart _ _ =>
      have hmem := List.mem_of_mem_head? hstart
      rw [hts]
      exact List.mem_append_left _ (List.mem_append_right _ hmem)

/-- A fault is reported if the token that it is blamed on has a text. -/
theorem diagnostic?_eq_none_iff (h : Blames S ts t fault blamed) (lines : List String) :
    fault.diagnostic? lines = none ↔ blamed.text? = none := by
  cases h with
  | unexpected expected => exact Option.map_eq_none_iff
  | assignmentTarget _ _ _ _ _ => exact Option.map_eq_none_iff

/-- The token that a fault is blamed on is the one it is reported at. -/
theorem report (h : Blames S ts t fault blamed) {lines : List String} {d : Diagnostic}
    (hd : fault.diagnostic? lines = some d) :
    d.location = some blamed.location ∧
      d.sourceLine = Text.lineAt? lines blamed.location.line := by
  cases h with
  | unexpected expected =>
      obtain ⟨text, -, rfl⟩ := Option.map_eq_some_iff.mp hd
      exact ⟨rfl, rfl⟩
  | assignmentTarget _ _ _ _ _ =>
      obtain ⟨text, -, rfl⟩ := Option.map_eq_some_iff.mp hd
      exact ⟨rfl, rfl⟩

end Blames

/-- A reader of a form with the sentences `S` that started at `c` failed at `c'`, and what it had
read begins a sentence. -/
def Interrupted (S : List Kind → Prop) (c : Cursor) (fault : ParseFault) (c' : Cursor) : Prop :=
  ∃ ts us blamed, Reads c c' ts ∧ S (ts.map Token.kind ++ us) ∧
    Blames S ts c'.current fault blamed

variable {S S' : List Kind → Prop} {c₀ c c' : Cursor} {fault : ParseFault} {ts : List Token}

/-- The next token is not what could complete a sentence. -/
theorem interrupted_at (hr : Reads c₀ c ts) (ks : List Kind) (hs : S (ts.map Token.kind ++ ks))
    (expected : Expected) : Interrupted S c₀ (.unexpected expected c.current) c :=
  ⟨ts, ks, _, hr, hs, .unexpected expected⟩

/-- A form that fails inside another one: `hrest` says how the other one goes on after it. -/
theorem Interrupted.within (h : Interrupted S c fault c') (hr : Reads c₀ c ts)
    (hrest : ∀ ks, S ks → ∃ vs, S' (ts.map Token.kind ++ ks ++ vs)) :
    Interrupted S' c₀ fault c' := by
  obtain ⟨us, ls, blamed, hus, hs, hblames⟩ := h
  obtain ⟨vs, hvs⟩ := hrest _ hs
  refine ⟨ts ++ us, ls ++ vs, blamed, hr.trans hus, by simpa using hvs, ?_⟩
  cases hblames with
  | unexpected expected => exact .unexpected expected
  | assignmentTarget hassign hsplit hstart hleft hany =>
      subst hsplit
      refine .assignmentTarget hassign (List.append_assoc _ _ _).symm hstart hleft fun ks hks => ?_
      obtain ⟨us, hus⟩ := hany ks hks
      obtain ⟨vs, hvs⟩ := hrest _ hus
      exact ⟨us ++ vs, by simpa using hvs⟩

theorem exprSentence_number (form : Form) : ExprSentence form [.number] := by
  have hunary : ExprSentence .unary [.number] := .unsigned .number
  have hmul : ExprSentence (.level .multiplicative) [.number] := .operand hunary
  have hadd : ExprSentence (.level .additive) [.number] := .operand hmul
  have hrel : ExprSentence (.level .relational) [.number] := .operand hadd
  have heq : ExprSentence (.level .equality) [.number] := .operand hrel
  cases form with
  | primary => exact .number
  | unary => exact hunary
  | level rank =>
      cases rank with
      | multiplicative => exact hmul
      | additive => exact hadd
      | relational => exact hrel
      | equality => exact heq
  | expression => exact .equality heq

/-! ## Parts of statements -/

/-- A sentence and the symbol that closes it. -/
def Closing (S : List Kind → Prop) (s : Symbol) (ks : List Kind) : Prop :=
  ∃ ls, S ls ∧ ks = ls ++ [.symbol s]

/-- An expression in parentheses. -/
def ConditionSentence (ks : List Kind) : Prop :=
  ∃ ls, Closing (ExprSentence .expression) .rightParen ls ∧ ks = .symbol .leftParen :: ls

theorem conditionSentence_number :
    ConditionSentence [.symbol .leftParen, .number, .symbol .rightParen] :=
  ⟨_, ⟨_, exprSentence_number _, rfl⟩, rfl⟩

theorem closing_absent (s : Symbol) : Closing ClauseSentence s [.symbol s] :=
  ⟨[], Or.inl rfl, rfl⟩

theorem stmtSentence_if {ks ls : List Kind} (hks : ConditionSentence ks) (hls : StmtSentence ls) :
    StmtSentence (.symbol .if_ :: (ks ++ ls)) := by
  obtain ⟨_, ⟨es, hes, rfl⟩, rfl⟩ := hks
  simpa using StmtSentence.ifThen hes hls

theorem stmtSentence_ifElse {ks ls ms : List Kind} (hks : ConditionSentence ks)
    (hls : StmtSentence ls) (hms : StmtSentence ms) :
    StmtSentence (.symbol .if_ :: (ks ++ (ls ++ .symbol .else_ :: ms))) := by
  obtain ⟨_, ⟨es, hes, rfl⟩, rfl⟩ := hks
  simpa using StmtSentence.ifElse hes hls hms

theorem stmtSentence_while {ks ls : List Kind} (hks : ConditionSentence ks)
    (hls : StmtSentence ls) : StmtSentence (.symbol .while_ :: (ks ++ ls)) := by
  obtain ⟨_, ⟨es, hes, rfl⟩, rfl⟩ := hks
  simpa using StmtSentence.while_ hes hls

theorem stmtSentence_for {is cs us ls : List Kind} (his : Closing ClauseSentence .semicolon is)
    (hcs : Closing ClauseSentence .semicolon cs) (hus : Closing ClauseSentence .rightParen us)
    (hls : StmtSentence ls) :
    StmtSentence (.symbol .for_ :: .symbol .leftParen :: (is ++ (cs ++ (us ++ ls)))) := by
  obtain ⟨is, his, rfl⟩ := his
  obtain ⟨cs, hcs, rfl⟩ := hcs
  obtain ⟨us, hus, rfl⟩ := hus
  simpa using StmtSentence.for_ his hcs hus hls

/-- The shortest statement. -/
def emptyBlock : List Kind :=
  [.symbol .leftBrace, .symbol .rightBrace]

theorem stmtSentence_emptyBlock : StmtSentence emptyBlock :=
  .block .nil

end Grammar

namespace Parse

open Grammar

/-- Whenever the reader fails, what it has read begins a sentence. -/
def Viable {α : Type} (S : List Kind → Prop) (p : Parse α) : Prop :=
  ∀ ⦃c c' : Cursor⦄ ⦃fault : ParseFault⦄, c.Closed → p c = .error fault c' →
    Interrupted S c fault c'

theorem Sound.sentence {form : Form} {p : Parse Expr} (hp : Sound form p) {c c' : Cursor}
    {e : Expr} (hc : c.Closed) (h : p c = .ok e c') :
    ∃ ts, Reads c c' ts ∧ ExprSentence form (ts.map Token.kind) := by
  obtain ⟨ts, hr, hd⟩ := hp hc h
  exact ⟨ts, hr, (hd _ (agrees_place c'.slots)).sentence⟩

theorem SoundStmt.sentence {p : Parse Stmt} (hp : SoundStmt p) {c c' : Cursor} {s : Stmt}
    (hc : c.Closed) (h : p c = .ok s c') :
    ∃ ts, Reads c c' ts ∧ StmtSentence (ts.map Token.kind) := by
  obtain ⟨ts, hr, hd⟩ := (hp hc h).derives
  exact ⟨ts, hr, (hd _ (agrees_place c'.slots)).sentence⟩

/-- A reader that ends by expecting a symbol fails at it or not at all. -/
theorem close_error {α : Type} {s : Symbol} {a : α} {c c' : Cursor} {fault : ParseFault}
    (h : (do
      expect s
      return a : Parse α) c = .error fault c') :
    .unexpected (.symbol s) c.current = fault ∧ c = c' := by
  rcases bind_error_iff.mp h with h | ⟨_, _, _, h⟩
  · exact (expect_error_iff.mp h).2
  · cases h

/-! ## Expressions -/

section

variable {expression : Parse Expr}

theorem primary_viable (hx : Sound .expression expression)
    (hv : Viable (ExprSentence .expression) expression) :
    Viable (ExprSentence .primary) (primary expression) := by
  intro c c' fault hc h
  rw [primary_eq] at h
  split at h
  · cases h
  · cases h
  · next text hlex =>
    have hkind := kind_of_symbol hlex
    obtain ⟨hr, hca⟩ := reads_symbol hc hkind
    rcases bind_error_iff.mp h with h | ⟨e, d, he, h⟩
    · refine (hv hca h).within hr fun ks hks => ⟨[.symbol .rightParen], ?_⟩
      simpa [hkind] using ExprSentence.parentheses hks
    · obtain ⟨ts, hts, hks⟩ := hx.sentence hca he
      obtain ⟨rfl, rfl⟩ := close_error h
      refine interrupted_at (hr.trans hts) [.symbol .rightParen] ?_ _
      simpa [hkind] using ExprSentence.parentheses hks
  · rw [unexpected_eq] at h
    cases h
    exact interrupted_at (Reads.refl c) _ (exprSentence_number _) _

theorem unary_viable (hx : Sound .expression expression)
    (hv : Viable (ExprSentence .expression) expression) :
    Viable (ExprSentence .unary) (unary expression) := by
  intro c c' fault hc h
  have hprimary := primary_viable hx hv
  rw [unary_eq] at h
  split at h
  · next text hlex =>
    have hkind := kind_of_symbol hlex
    obtain ⟨hr, hca⟩ := reads_symbol hc hkind
    refine (hprimary hca h).within hr fun ks hks => ⟨[], ?_⟩
    simpa [hkind] using ExprSentence.plus hks
  · next text hlex =>
    have hkind := kind_of_symbol hlex
    obtain ⟨hr, hca⟩ := reads_symbol hc hkind
    rcases bind_error_iff.mp h with h | ⟨_, _, _, h⟩
    · refine (hprimary hca h).within hr fun ks hks => ⟨[], ?_⟩
      simpa [hkind] using ExprSentence.minus hks
    · cases h
  · refine (hprimary hc h).within (Reads.refl c) fun ks hks => ⟨[], ?_⟩
    simpa using ExprSentence.unsigned hks

/-- A chain that fails after `ts` fails in an operand. -/
theorem chainFrom_viable {operand : Parse Expr} {rank : Rank} (hx : Sound rank.operand operand)
    (hv : Viable (ExprSentence rank.operand) operand) (bound : Nat) {left : Expr}
    {c₀ c c' : Cursor} {fault : ParseFault} {ts : List Token} (hc : c.Closed) (hr : Reads c₀ c ts)
    (hks : ExprSentence (.level rank) (ts.map Token.kind))
    (h : chainFrom operand rank.level bound left c = .error fault c') :
    Interrupted (ExprSentence (.level rank)) c₀ fault c' := by
  induction bound generalizing c left ts with
  | zero => cases h
  | succ bound ih =>
      rw [chainFrom_succ] at h
      split at h
      · cases h
      · next form hform =>
        obtain ⟨s, hs, hsf⟩ := kind_of_operator? hform
        have hmem := (joins_apply hsf left left).mem_operators
        obtain ⟨ha, hca⟩ := reads_symbol hc hs
        rcases bind_error_iff.mp h with h | ⟨right, d, hright, h⟩
        · refine (hv hca h).within (hr.trans ha) fun ls hls => ⟨[], ?_⟩
          simpa [hs] using ExprSentence.operator hks hmem hls
        · obtain ⟨us, hus, hls⟩ := hx.sentence hca hright
          refine ih (hx.closed hca hright) (hr.trans (ha.trans hus)) ?_ h
          simpa [hs] using ExprSentence.operator hks hmem hls

theorem chain_viable (rank : Rank) {operand : Parse Expr} (hx : Sound rank.operand operand)
    (hv : Viable (ExprSentence rank.operand) operand) (bound : Nat) :
    Viable (ExprSentence (.level rank)) (chain bound rank.level operand) := by
  intro c c' fault hc h
  rcases bind_error_iff.mp h with h | ⟨left, d, hleft, h⟩
  · refine (hv hc h).within (Reads.refl c) fun ks hks => ⟨[], ?_⟩
    simpa using ExprSentence.operand hks
  · obtain ⟨ts, hts, hks⟩ := hx.sentence hc hleft
    exact chainFrom_viable hx hv bound (hx.closed hc hleft) hts (.operand hks) h

theorem equality_viable (hx : Sound .expression expression)
    (hv : Viable (ExprSentence .expression) expression) (bound : Nat) :
    Viable (ExprSentence (.level .equality)) (equality bound expression) := by
  have hunary := unary_sound hx
  have hmul := chain_sound .multiplicative hunary bound
  have hadd := chain_sound .additive hmul bound
  have hrel := chain_sound .relational hadd bound
  have hmulViable := chain_viable .multiplicative hunary (unary_viable hx hv) bound
  have haddViable := chain_viable .additive hmul hmulViable bound
  have hrelViable := chain_viable .relational hadd haddViable bound
  exact chain_viable .equality hrel hrelViable bound

theorem assignment_viable (hx : Sound .expression expression)
    (hv : Viable (ExprSentence .expression) expression) (bound : Nat) :
    Viable (ExprSentence .expression) (assignment bound expression) := by
  intro c c' fault hc h
  have heq := equality_sound hx bound
  unfold assignment at h
  rw [bind_of_ok (peek_eq c)] at h
  rcases bind_error_iff.mp h with h | ⟨e, d, he, h⟩
  · refine (equality_viable hx hv bound hc h).within (Reads.refl c) fun ks hks => ⟨[], ?_⟩
    simpa using ExprSentence.equality hks
  · obtain ⟨ts, hts, hd⟩ := heq hc he
    have hderives := hd _ (agrees_place d.slots)
    rw [bind_of_ok (at?_eq _ d)] at h
    split at h
    · next hassign =>
      have hkind := kind_eq_symbol_iff.mpr hassign
      split at h
      · next target =>
        obtain ⟨ha, hca⟩ := reads_symbol (heq.closed hc he) hkind
        rw [bind_of_ok (advance_eq d)] at h
        rcases bind_error_iff.mp h with h | ⟨_, _, _, h⟩
        · refine (hv hca h).within (hts.trans ha) fun ks hks => ⟨[], ?_⟩
          simpa [hkind] using ExprSentence.assignment hderives.target.1.sentence hks
        · cases h
      · cases h
        obtain ⟨t, us, rfl, -⟩ := hderives.starts
        refine ⟨_, [], c.current, hts, by simpa using ExprSentence.equality hderives.sentence, ?_⟩
        refine .assignmentTarget hkind (List.nil_append _).symm ?_ hderives.sentence ?_
        · rw [hts.current]
          rfl
        · exact fun ks hks => ⟨[], by simpa using hks⟩
    · cases h

end

theorem expression_viable (bound : Nat) :
    Viable (ExprSentence .expression) (expression bound) := by
  induction bound with
  | zero =>
      intro c c' fault _ h
      rw [expression, unexpected_eq] at h
      cases h
      exact interrupted_at (Reads.refl c) _ (exprSentence_number _) _
  | succ bound ih => exact assignment_viable (expression_sound bound) ih bound

/-! ## Statements -/

section

variable {expression : Parse Expr} {statement : Parse Stmt} {c c' : Cursor} {fault : ParseFault}

/-- An expression and the symbol that closes it. -/
theorem closed_viable {α : Type} {S : List Kind → Prop} (hx : Sound .expression expression)
    (hv : Viable (ExprSentence .expression) expression)
    (hS : ∀ ks, ExprSentence .expression ks → S ks) (s : Symbol) (f : Expr → α) :
    Viable (Closing S s) (do
      let e ← expression
      expect s
      return f e) := by
  intro c c' fault hc h
  rcases bind_error_iff.mp h with h | ⟨e, d, he, h⟩
  · refine (hv hc h).within (Reads.refl c) fun ks hks => ⟨[.symbol s], ks, hS ks hks, ?_⟩
    simp
  · obtain ⟨ts, hts, hks⟩ := hx.sentence hc he
    obtain ⟨rfl, rfl⟩ := close_error h
    exact interrupted_at hts [.symbol s] ⟨_, hS _ hks, rfl⟩ _

theorem condition_viable (hx : Sound .expression expression)
    (hv : Viable (ExprSentence .expression) expression) :
    Viable ConditionSentence (condition expression) := by
  intro c c' fault hc h
  rcases bind_error_iff.mp h with h | ⟨_, d, hopen, h⟩
  · obtain ⟨-, rfl, rfl⟩ := expect_error_iff.mp h
    exact interrupted_at (Reads.refl c) _ conditionSentence_number _
  · obtain ⟨hls, hlr⟩ := expect_reads hc hopen
    have hkind := kind_eq_symbol_iff.mpr hls
    have hcd := hlr.closed hc (by simpa using not_isEnd_of_isSymbol hls)
    refine (closed_viable hx hv (fun _ => id) _ id hcd h).within hlr fun ks hks => ⟨[], ks, hks, ?_⟩
    simp [hkind]

theorem condition_sentence (hx : Sound .expression expression) {e : Expr} (hc : c.Closed)
    (h : condition expression c = .ok e c') :
    ∃ ts, Reads c c' ts ∧ c'.Closed ∧ ConditionSentence (ts.map Token.kind) := by
  obtain ⟨l, ts, r, hr, hc', hl, hrp, hd⟩ := condition_sound hx hc h
  refine ⟨_, hr, hc', _, ⟨_, (hd _ (agrees_place c'.slots)).sentence, rfl⟩, ?_⟩
  simp [hl, hrp]

theorem clause_viable (hx : Sound .expression expression)
    (hv : Viable (ExprSentence .expression) expression) (close : Symbol) :
    Viable (Closing ClauseSentence close) (clause expression close) := by
  intro c c' fault hc h
  rw [clause_eq] at h
  split at h
  · next hclose =>
    rcases bind_error_iff.mp h with h | ⟨_, _, _, h⟩
    · rw [(expect_error_iff.mp h).1] at hclose
      cases hclose
    · cases h
  · rw [map_eq_pure_bind, bind_assoc] at h
    exact closed_viable hx hv (fun _ => Or.inr) close some hc h

theorem clause_sentence (hx : Sound .expression expression) {close : Symbol} {e : Option Expr}
    (hc : c.Closed) (h : clause expression close c = .ok e c') :
    ∃ ts, Reads c c' ts ∧ c'.Closed ∧ Closing ClauseSentence close (ts.map Token.kind) := by
  obtain ⟨ts, r, hr, hc', hclose, hd⟩ := clause_sound hx hc h
  refine ⟨_, hr, hc', _, (hd _ (agrees_place c'.slots)).sentence, ?_⟩
  simp [hclose]

theorem blockBody_viable (hs : SoundStmt statement) (hv : Viable StmtSentence statement)
    (bound : Nat) : Viable (Closing ProgramSentence .rightBrace) (blockBody statement bound) := by
  have hempty : Closing ProgramSentence .rightBrace [.symbol .rightBrace] := ⟨[], .nil, rfl⟩
  induction bound with
  | zero =>
      intro c c' fault _ h
      rw [blockBody, unexpected_eq] at h
      cases h
      exact interrupted_at (Reads.refl c) _ hempty _
  | succ bound ih =>
      intro c c' fault hc h
      rw [blockBody_succ] at h
      split at h
      · cases h
      · split at h
        · rw [unexpected_eq] at h
          cases h
          exact interrupted_at (Reads.refl c) _ hempty _
        · rcases bind_error_iff.mp h with h | ⟨first, d, hfirst, h⟩
          · refine (hv hc h).within (Reads.refl c) fun ks hks => ⟨[.symbol .rightBrace], ks, ?_, ?_⟩
            · simpa using ProgramSentence.cons hks .nil
            · simp
          · obtain ⟨ts, hts, hks⟩ := hs.sentence hc hfirst
            rcases bind_error_iff.mp h with h | ⟨_, _, _, h⟩
            · refine (ih (hs.closed hc hfirst) h).within hts ?_
              rintro _ ⟨ls, hls, rfl⟩
              exact ⟨[], _, .cons hks hls, by simp⟩
            · cases h

theorem statements_viable (hs : SoundStmt statement) (hv : Viable StmtSentence statement)
    (bound : Nat) : Viable ProgramSentence (statements statement bound) := by
  induction bound with
  | zero =>
      intro c c' fault _ h
      cases h
  | succ bound ih =>
      intro c c' fault hc h
      rw [statements_succ] at h
      split at h
      · cases h
      · rcases bind_error_iff.mp h with h | ⟨first, d, hfirst, h⟩
        · refine (hv hc h).within (Reads.refl c) fun ks hks => ⟨[], ?_⟩
          simpa using ProgramSentence.cons hks .nil
        · obtain ⟨ts, hts, hks⟩ := hs.sentence hc hfirst
          rcases bind_error_iff.mp h with h | ⟨_, _, _, h⟩
          · refine (ih (hs.closed hc hfirst) h).within hts fun ls hls => ⟨[], ?_⟩
            simpa using ProgramSentence.cons hks hls
          · cases h

theorem if_viable (hx : Sound .expression expression)
    (hv : Viable (ExprSentence .expression) expression) (hs : SoundStmt statement)
    (hw : Viable StmtSentence statement) (hc : c.Closed) (ht : c.current.kind = .symbol .if_)
    (h : (do
      let condition ← condition expression
      let body ← statement
      if ← at? .else_ then
        advance
        return .ifElse c.current.location condition body (← statement)
      else return .ifThen c.current.location condition body : Parse Stmt) c.advance =
        .error fault c') :
    Interrupted StmtSentence c fault c' := by
  obtain ⟨hr, hca⟩ := reads_symbol hc ht
  rcases bind_error_iff.mp h with h | ⟨e, d, he, h⟩
  · refine (condition_viable hx hv hca h).within hr fun ks hks => ⟨emptyBlock, ?_⟩
    simpa [ht] using stmtSentence_if hks stmtSentence_emptyBlock
  · obtain ⟨ts, hts, hcd, hks⟩ := condition_sentence hx hca he
    rcases bind_error_iff.mp h with h | ⟨body, d', hbody, h⟩
    · refine (hw hcd h).within (hr.trans hts) fun ls hls => ⟨[], ?_⟩
      simpa [ht] using stmtSentence_if hks hls
    · obtain ⟨us, hus, hls⟩ := hs.sentence hcd hbody
      rw [bind_of_ok (at?_eq _ d')] at h
      split at h
      · next helse =>
        have hkind := kind_eq_symbol_iff.mpr helse
        obtain ⟨ha, hca'⟩ := reads_symbol (hs.closed hcd hbody) hkind
        rw [bind_of_ok (advance_eq d')] at h
        rcases bind_error_iff.mp h with h | ⟨_, _, _, h⟩
        · refine (hw hca' h).within (hr.trans (hts.trans (hus.trans ha))) fun ms hms => ⟨[], ?_⟩
          simpa [ht, hkind] using stmtSentence_ifElse hks hls hms
        · cases h
      · cases h

theorem for_viable (hx : Sound .expression expression)
    (hv : Viable (ExprSentence .expression) expression) (hw : Viable StmtSentence statement)
    (hc : c.Closed) (ht : c.current.kind = .symbol .for_)
    (h : (do
      expect .leftParen
      let i ← clause expression .semicolon
      let condition ← clause expression .semicolon
      let u ← clause expression .rightParen
      return .for_ c.current.location i condition u (← statement) : Parse Stmt) c.advance =
        .error fault c') :
    Interrupted StmtSentence c fault c' := by
  obtain ⟨hr, hca⟩ := reads_symbol hc ht
  rcases bind_error_iff.mp h with h | ⟨_, d₀, hopen, h⟩
  · obtain ⟨-, rfl, rfl⟩ := expect_error_iff.mp h
    refine interrupted_at hr (.symbol .leftParen :: .symbol .semicolon :: .symbol .semicolon ::
      .symbol .rightParen :: emptyBlock) ?_ _
    simpa [ht] using stmtSentence_for (closing_absent _) (closing_absent _) (closing_absent _)
      stmtSentence_emptyBlock
  · obtain ⟨hls, hlr⟩ := expect_reads hca hopen
    have hl := kind_eq_symbol_iff.mpr hls
    have hc₀ := hlr.closed hca (by simpa using not_isEnd_of_isSymbol hls)
    have hr₀ := hr.trans hlr
    rcases bind_error_iff.mp h with h | ⟨i, d₁, hi, h⟩
    · refine (clause_viable hx hv _ hc₀ h).within hr₀ fun is his =>
        ⟨.symbol .semicolon :: .symbol .rightParen :: emptyBlock, ?_⟩
      simpa [ht, hl] using stmtSentence_for his (closing_absent _) (closing_absent _)
        stmtSentence_emptyBlock
    · obtain ⟨is, his, hc₁, hsi⟩ := clause_sentence hx hc₀ hi
      rcases bind_error_iff.mp h with h | ⟨e, d₂, he, h⟩
      · refine (clause_viable hx hv _ hc₁ h).within (hr₀.trans his) fun cs hcs =>
          ⟨.symbol .rightParen :: emptyBlock, ?_⟩
        simpa [ht, hl] using stmtSentence_for hsi hcs (closing_absent _) stmtSentence_emptyBlock
      · obtain ⟨cs, hcs, hc₂, hse⟩ := clause_sentence hx hc₁ he
        rcases bind_error_iff.mp h with h | ⟨u, d₃, hu, h⟩
        · refine (clause_viable hx hv _ hc₂ h).within (hr₀.trans (his.trans hcs))
            fun us hus => ⟨emptyBlock, ?_⟩
          simpa [ht, hl] using stmtSentence_for hsi hse hus stmtSentence_emptyBlock
        · obtain ⟨us, hus, hc₃, hsu⟩ := clause_sentence hx hc₂ hu
          rcases bind_error_iff.mp h with h | ⟨_, _, _, h⟩
          · refine (hw hc₃ h).within (hr₀.trans (his.trans (hcs.trans hus)))
              fun ls hls => ⟨[], ?_⟩
            simpa [ht, hl] using stmtSentence_for hsi hse hsu hls
          · cases h

theorem statementForm_viable (hx : Sound .expression expression)
    (hv : Viable (ExprSentence .expression) expression) (hs : SoundStmt statement)
    (hw : Viable StmtSentence statement) (bound : Nat) :
    Viable StmtSentence (statementForm bound expression statement) := by
  intro c c' fault hc h
  rw [statementForm_eq] at h
  split at h
  · next text hlex =>
    have ht := kind_of_symbol hlex
    obtain ⟨hr, hca⟩ := reads_symbol hc ht
    refine (closed_viable hx hv (fun _ => id) _ _ hca h).within hr ?_
    rintro _ ⟨ks, hks, rfl⟩
    exact ⟨[], by simpa [ht] using StmtSentence.ret hks⟩
  · next text hlex => exact if_viable hx hv hs hw hc (kind_of_symbol hlex) h
  · next text hlex =>
    have ht := kind_of_symbol hlex
    obtain ⟨hr, hca⟩ := reads_symbol hc ht
    rcases bind_error_iff.mp h with h | ⟨e, d, he, h⟩
    · refine (condition_viable hx hv hca h).within hr fun ks hks => ⟨emptyBlock, ?_⟩
      simpa [ht] using stmtSentence_while hks stmtSentence_emptyBlock
    · obtain ⟨ts, hts, hcd, hks⟩ := condition_sentence hx hca he
      rcases bind_error_iff.mp h with h | ⟨_, _, _, h⟩
      · refine (hw hcd h).within (hr.trans hts) fun ls hls => ⟨[], ?_⟩
        simpa [ht] using stmtSentence_while hks hls
      · cases h
  · next text hlex => exact for_viable hx hv hw hc (kind_of_symbol hlex) h
  · next text hlex =>
    have ht := kind_of_symbol hlex
    obtain ⟨hr, hca⟩ := reads_symbol hc ht
    rcases bind_error_iff.mp h with h | ⟨_, _, _, h⟩
    · refine (blockBody_viable hs hw bound hca h).within hr ?_
      rintro _ ⟨ks, hks, rfl⟩
      exact ⟨[], by simpa [ht] using StmtSentence.block hks⟩
    · cases h
  · refine (closed_viable hx hv (fun _ => id) _ _ hc h).within (Reads.refl c) ?_
    rintro _ ⟨ks, hks, rfl⟩
    exact ⟨[], by simpa using StmtSentence.expr hks⟩

end

theorem statement_viable (bound : Nat) : Viable StmtSentence (statement bound) := by
  induction bound with
  | zero =>
      intro c c' fault _ h
      rw [statement, unexpected_eq] at h
      cases h
      exact interrupted_at (Reads.refl c) _ stmtSentence_emptyBlock _
  | succ bound ih =>
      exact statementForm_viable (expression_sound _) (expression_viable _) (statement_sound bound)
        ih bound

theorem program_viable (bound : Nat) (filename : String) :
    Viable ProgramSentence (program bound filename) := by
  intro c c' fault hc h
  rcases bind_error_iff.mp h with h | ⟨_, _, _, h⟩
  · exact statements_viable (statement_sound bound) (statement_viable bound) bound hc h
  · cases h

end Parse

end StackLang
