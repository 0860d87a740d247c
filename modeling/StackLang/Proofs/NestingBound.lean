import StackLang.Proofs.ParseProgram

/-!
# The bound on nesting

Readers are tied together by a bound on the nesting. Every nested form starts at least one token
later, so a bound that the tokens ahead do not exceed is never reached, and any two such bounds give
the same reader. One step of each recursion is stated with the readers that it calls as parameters,
and what a step does depends on these no further than to the tokens ahead.
-/

namespace StackLang

theorem Reads.length_rest {c c' : Cursor} {ts : List Token} (h : Reads c c' ts) :
    c.rest.length = ts.length + c'.rest.length := by
  rw [h.rest, List.length_append]

theorem Cursor.length_rest_pos (c : Cursor) : 0 < c.rest.length :=
  Nat.succ_pos _

namespace Parse

open Grammar

/-! ## Progress -/

theorem Sound.shrinks {form : Form} {p : Parse Expr} (hp : Sound form p) {c c' : Cursor} {e : Expr}
    (hc : c.Closed) (h : p c = .ok e c') : c'.rest.length < c.rest.length := by
  obtain ⟨ts, hr, hd⟩ := hp hc h
  have hpos := List.length_pos_iff.mpr (hd _ (agrees_place c'.slots)).ne_nil
  rw [hr.length_rest]
  omega

theorem SoundStmt.shrinks {p : Parse Stmt} (hp : SoundStmt p) {c c' : Cursor} {s : Stmt}
    (hc : c.Closed) (h : p c = .ok s c') : c'.rest.length < c.rest.length := by
  obtain ⟨ts, hr, hd⟩ := (hp hc h).derives
  have hpos := List.length_pos_iff.mpr (hd _ (agrees_place c'.slots)).ne_nil
  rw [hr.length_rest]
  omega

/-- After a symbol there is less to read. -/
theorem advance_shrinks {c : Cursor} {s : Symbol} (hc : c.Closed)
    (h : c.current.kind = .symbol s) :
    c.advance.Closed ∧ c.advance.rest.length < c.rest.length := by
  obtain ⟨hr, hca⟩ := reads_symbol hc h
  refine ⟨hca, ?_⟩
  rw [hr.length_rest]
  simp

theorem expect_shrinks {s : Symbol} {c c' : Cursor} (hc : c.Closed) (h : expect s c = .ok () c') :
    c'.Closed ∧ c'.rest.length < c.rest.length := by
  obtain ⟨hs, rfl⟩ := expect_ok_iff.mp h
  exact advance_shrinks hc (kind_eq_symbol_iff.mpr hs)

/-! ## Readers that agree -/

/-- The readers do the same wherever at most `m` tokens are ahead. -/
def Same {α : Type} (m : Nat) (x y : Parse α) : Prop :=
  ∀ c : Cursor, c.Closed → c.rest.length ≤ m → x c = y c

theorem Same.mono {α : Type} {m n : Nat} {x y : Parse α} (h : Same n x y) (hmn : m ≤ n) :
    Same m x y :=
  fun c hc hlen => h c hc (hlen.trans hmn)

theorem Same.trans {α : Type} {m : Nat} {x y z : Parse α} (h₁ : Same m x y) (h₂ : Same m y z) :
    Same m x z :=
  fun c hc hlen => (h₁ c hc hlen).trans (h₂ c hc hlen)

theorem Same.refl {α : Type} (m : Nat) (x : Parse α) : Same m x x :=
  fun _ _ _ => rfl

/-- A token is always ahead. -/
theorem Same.zero {α : Type} (x y : Parse α) : Same 0 x y :=
  fun c _ hlen => absurd c.length_rest_pos (by omega)

theorem bind_congr_at {α β : Type} {x y : Parse α} {f g : α → Parse β} {c : Cursor}
    (hxy : x c = y c) (hfg : ∀ a c', x c = .ok a c' → f a c' = g a c') :
    (x >>= f) c = (y >>= g) c := by
  change EStateM.bind x f c = EStateM.bind y g c
  unfold EStateM.bind
  rw [← hxy]
  cases h : x c with
  | ok a c' => exact hfg a c' h
  | error fault c' => rfl

theorem advance_congr {α : Type} {x y : Parse α} {c : Cursor} (h : x c.advance = y c.advance) :
    (advance >>= fun _ => x) c = (advance >>= fun _ => y) c := by
  rw [bind_of_ok (advance_eq c), bind_of_ok (advance_eq c)]
  exact h

/-! ## Steps -/

/-- Continues a chain of operators by one of them, and then by `again`. -/
def operatorStep (operand : Parse Expr) (level : Level) (again : Expr → Parse Expr)
    (left : Expr) : Parse Expr := do
  match level.operator? (← peek) with
  | none => return left
  | some form =>
    advance
    let right ← operand
    again (form.apply left right)

def assignmentStep (equality expression : Parse Expr) : Parse Expr := do
  let start ← peek
  let e ← equality
  if ← at? .assign then
    match e with
    | .var target =>
      advance
      return .assign target.location target (← expression)
    | _ => throw (.assignmentTarget start)
  else return e

/-- A statement, where `block` reads what is between braces with the closing one. -/
def statementStep (expression : Parse Expr) (statement : Parse Stmt)
    (block : Parse (List Stmt)) : Parse Stmt := do
  let token ← peek
  match token.lexeme with
  | .symbol .return_ _ =>
    advance
    let value ← expression
    expect .semicolon
    return .ret token.location value
  | .symbol .if_ _ =>
    advance
    let c ← condition expression
    let body ← statement
    if ← at? .else_ then
      advance
      return .ifElse token.location c body (← statement)
    else return .ifThen token.location c body
  | .symbol .while_ _ =>
    advance
    let c ← condition expression
    return .while_ token.location c (← statement)
  | .symbol .for_ _ =>
    advance
    expect .leftParen
    let i ← clause expression .semicolon
    let c ← clause expression .semicolon
    let u ← clause expression .rightParen
    return .for_ token.location i c u (← statement)
  | .symbol .leftBrace _ =>
    advance
    return .block token.location (← block)
  | _ =>
    let value ← expression
    expect .semicolon
    return .expr token.location value

/-- The closing brace, or one more statement and then `again`. -/
def blockStep (statement : Parse Stmt) (again : Parse (List Stmt)) : Parse (List Stmt) := do
  if ← at? .rightBrace then
    advance
    return []
  else if (← peek).isEnd then unexpected (.symbol .rightBrace)
  else
    let first ← statement
    let rest ← again
    return first :: rest

/-- The end of the input, or one more statement and then `again`. -/
def programStep (statement : Parse Stmt) (again : Parse (List Stmt)) : Parse (List Stmt) := do
  if (← peek).isEnd then return []
  else
    let first ← statement
    let rest ← again
    return first :: rest

theorem chainFrom_step (operand : Parse Expr) (level : Level) (bound : Nat) (left : Expr) :
    chainFrom operand level (bound + 1) left =
      operatorStep operand level (chainFrom operand level bound) left := rfl

theorem assignment_step (bound : Nat) (expression : Parse Expr) :
    assignment bound expression = assignmentStep (equality bound expression) expression := rfl

theorem statementForm_step (bound : Nat) (expression : Parse Expr) (statement : Parse Stmt) :
    statementForm bound expression statement =
      statementStep expression statement (blockBody statement bound) := rfl

theorem blockBody_step (statement : Parse Stmt) (bound : Nat) :
    blockBody statement (bound + 1) = blockStep statement (blockBody statement bound) := rfl

theorem statements_step (statement : Parse Stmt) (bound : Nat) :
    statements statement (bound + 1) = programStep statement (statements statement bound) := rfl

variable {m b b' : Nat} {expression expression' : Parse Expr}

/-! ## Expressions -/

theorem primary_same (hx : Same m expression expression') :
    Same (m + 1) (primary expression) (primary expression') := by
  intro c hc hlen
  rw [primary_eq, primary_eq]
  cases hlex : c.current.lexeme with
  | symbol s text =>
      cases s
      case leftParen =>
        obtain ⟨hca, hless⟩ := advance_shrinks hc (kind_of_symbol hlex)
        exact bind_congr_at (hx _ hca (by omega)) fun _ _ _ => rfl
      all_goals rfl
  | identifier name => rfl
  | number value => rfl
  | endOfInput => rfl

theorem unary_same (hx : Same m expression expression') :
    Same (m + 1) (unary expression) (unary expression') := by
  intro c hc hlen
  have hprimary := primary_same hx
  rw [unary_eq, unary_eq]
  cases hlex : c.current.lexeme with
  | symbol s text =>
      cases s
      case plus =>
        obtain ⟨hca, hless⟩ := advance_shrinks hc (kind_of_symbol hlex)
        exact hprimary _ hca (by omega)
      case minus =>
        obtain ⟨hca, hless⟩ := advance_shrinks hc (kind_of_symbol hlex)
        exact bind_congr_at (hprimary _ hca (by omega)) fun _ _ _ => rfl
      all_goals exact hprimary c hc hlen
  | identifier name => exact hprimary c hc hlen
  | number value => exact hprimary c hc hlen
  | endOfInput => exact hprimary c hc hlen

theorem operatorStep_same {operand operand' : Parse Expr} {rank : Rank}
    (hsound : Sound rank.operand operand) (ho : Same m operand operand')
    {again again' : Expr → Parse Expr} (ha : ∀ left, Same m (again left) (again' left))
    (left : Expr) :
    Same (m + 1) (operatorStep operand rank.level again left)
      (operatorStep operand' rank.level again' left) := by
  intro c hc hlen
  unfold operatorStep
  rw [bind_of_ok (peek_eq c), bind_of_ok (peek_eq c)]
  cases hop : rank.level.operator? c.current with
  | none => rfl
  | some form =>
      obtain ⟨s, hs, -⟩ := kind_of_operator? hop
      obtain ⟨hca, hless⟩ := advance_shrinks hc hs
      refine advance_congr (bind_congr_at (ho _ hca (by omega)) fun right d hright => ?_)
      have hshrunk := hsound.shrinks hca hright
      exact ha _ d (hsound.closed hca hright) (by omega)

theorem chainFrom_same {operand operand' : Parse Expr} {rank : Rank}
    (hsound : Sound rank.operand operand) (ho : Same m operand operand') (hb : m ≤ b)
    (hb' : m ≤ b') (left : Expr) :
    Same m (chainFrom operand rank.level b left) (chainFrom operand' rank.level b' left) := by
  induction m generalizing b b' left with
  | zero => exact Same.zero _ _
  | succ m ih =>
      obtain ⟨n, rfl⟩ : ∃ n, b = n + 1 := ⟨b - 1, by omega⟩
      obtain ⟨n', rfl⟩ : ∃ n', b' = n' + 1 := ⟨b' - 1, by omega⟩
      have ho' := ho.mono (Nat.le_succ m)
      rw [chainFrom_step, chainFrom_step]
      exact operatorStep_same hsound ho' (fun left => ih ho' (by omega) (by omega) left) left

theorem chain_same {operand operand' : Parse Expr} (rank : Rank)
    (hsound : Sound rank.operand operand) (ho : Same m operand operand') (hb : m ≤ b + 1)
    (hb' : m ≤ b' + 1) : Same m (chain b rank.level operand) (chain b' rank.level operand') := by
  intro c hc hlen
  refine bind_congr_at (ho c hc hlen) fun left d hleft => ?_
  have hshrunk := hsound.shrinks hc hleft
  have ho' : Same (m - 1) operand operand' := ho.mono (Nat.sub_le m 1)
  exact chainFrom_same hsound ho' (by omega) (by omega) left d (hsound.closed hc hleft) (by omega)

theorem equality_same (hsound : Sound .expression expression)
    (hx : Same m expression expression') (hb : m ≤ b) (hb' : m ≤ b') :
    Same (m + 1) (equality b expression) (equality b' expression') := by
  have hbound := Nat.succ_le_succ hb
  have hbound' := Nat.succ_le_succ hb'
  have hmul : Same (m + 1) (multiplicative b expression) (multiplicative b' expression') :=
    chain_same .multiplicative (unary_sound hsound) (unary_same hx) hbound hbound'
  have hmulSound : Sound (.level .multiplicative) (multiplicative b expression) :=
    chain_sound .multiplicative (unary_sound hsound) b
  have hadd : Same (m + 1) (additive b expression) (additive b' expression') :=
    chain_same .additive hmulSound hmul hbound hbound'
  have haddSound : Sound (.level .additive) (additive b expression) :=
    chain_sound .additive hmulSound b
  have hrel : Same (m + 1) (relational b expression) (relational b' expression') :=
    chain_same .relational haddSound hadd hbound hbound'
  exact chain_same .equality (chain_sound .relational haddSound b) hrel hbound hbound'

theorem assignmentStep_same {equality equality' : Parse Expr}
    (hsound : Sound (.level .equality) equality) (he : Same (m + 1) equality equality')
    (hx : Same m expression expression') :
    Same (m + 1) (assignmentStep equality expression) (assignmentStep equality' expression') := by
  intro c hc hlen
  unfold assignmentStep
  rw [bind_of_ok (peek_eq c), bind_of_ok (peek_eq c)]
  refine bind_congr_at (he c hc hlen) fun e d hd => ?_
  have hcd := hsound.closed hc hd
  have hshrunk := hsound.shrinks hc hd
  rw [bind_of_ok (at?_eq _ d), bind_of_ok (at?_eq _ d)]
  cases hassign : d.current.isSymbol .assign with
  | false => rfl
  | true =>
      cases e with
      | var target =>
          obtain ⟨hda, hless⟩ := advance_shrinks hcd (kind_eq_symbol_iff.mpr hassign)
          exact advance_congr (bind_congr_at (hx _ hda (by omega)) fun _ _ _ => rfl)
      | _ => rfl

theorem assignment_same (hsound : Sound .expression expression)
    (hx : Same m expression expression') (hb : m ≤ b) (hb' : m ≤ b') :
    Same (m + 1) (assignment b expression) (assignment b' expression') := by
  rw [assignment_step, assignment_step]
  exact assignmentStep_same (equality_sound hsound b) (equality_same hsound hx hb hb') hx

theorem expression_same (hb : m ≤ b) (hb' : m ≤ b') :
    Same m (Parse.expression b) (Parse.expression b') := by
  induction m generalizing b b' with
  | zero => exact Same.zero _ _
  | succ m ih =>
      obtain ⟨n, rfl⟩ : ∃ n, b = n + 1 := ⟨b - 1, by omega⟩
      obtain ⟨n', rfl⟩ : ∃ n', b' = n' + 1 := ⟨b' - 1, by omega⟩
      have hn : m ≤ n := by omega
      have hn' : m ≤ n' := by omega
      exact assignment_same (expression_sound n) (ih hn hn') hn hn'

/-! ## Statements -/

theorem condition_same (hx : Same m expression expression') :
    Same m (condition expression) (condition expression') := by
  intro c hc hlen
  refine bind_congr_at rfl fun _ d hd => ?_
  obtain ⟨hcd, hless⟩ := expect_shrinks hc hd
  exact bind_congr_at (hx d hcd (by omega)) fun _ _ _ => rfl

theorem clause_same (hx : Same m expression expression') (close : Symbol) :
    Same m (clause expression close) (clause expression' close) := by
  intro c hc hlen
  rw [clause_eq, clause_eq]
  cases c.current.isSymbol close with
  | true => rfl
  | false =>
      refine bind_congr_at ?_ fun _ _ _ => rfl
      rw [map_eq_pure_bind, map_eq_pure_bind]
      exact bind_congr_at (hx c hc hlen) fun _ _ _ => rfl

variable {statement statement' : Parse Stmt}

theorem blockStep_same (hsound : SoundStmt statement) (hs : Same (m + 1) statement statement')
    {again again' : Parse (List Stmt)} (ha : Same m again again') :
    Same (m + 1) (blockStep statement again) (blockStep statement' again') := by
  intro c hc hlen
  unfold blockStep
  rw [bind_of_ok (at?_eq _ c), bind_of_ok (at?_eq _ c)]
  cases c.current.isSymbol .rightBrace with
  | true => rfl
  | false =>
      simp only [Bool.false_eq_true, if_false]
      rw [bind_of_ok (peek_eq c), bind_of_ok (peek_eq c)]
      cases c.current.isEnd with
      | true => rfl
      | false =>
          refine bind_congr_at (hs c hc hlen) fun first d hfirst => ?_
          have hshrunk := hsound.shrinks hc hfirst
          exact bind_congr_at (ha d (hsound.closed hc hfirst) (by omega)) fun _ _ _ => rfl

theorem blockBody_same (hsound : SoundStmt statement) (hs : Same m statement statement')
    (hb : m ≤ b) (hb' : m ≤ b') : Same m (blockBody statement b) (blockBody statement' b') := by
  induction m generalizing b b' with
  | zero => exact Same.zero _ _
  | succ m ih =>
      obtain ⟨n, rfl⟩ : ∃ n, b = n + 1 := ⟨b - 1, by omega⟩
      obtain ⟨n', rfl⟩ : ∃ n', b' = n' + 1 := ⟨b' - 1, by omega⟩
      rw [blockBody_step, blockBody_step]
      exact blockStep_same hsound hs (ih (hs.mono (Nat.le_succ m)) (by omega) (by omega))

theorem programStep_same (hsound : SoundStmt statement) (hs : Same (m + 1) statement statement')
    {again again' : Parse (List Stmt)} (ha : Same m again again') :
    Same (m + 1) (programStep statement again) (programStep statement' again') := by
  intro c hc hlen
  unfold programStep
  rw [bind_of_ok (peek_eq c), bind_of_ok (peek_eq c)]
  cases c.current.isEnd with
  | true => rfl
  | false =>
      refine bind_congr_at (hs c hc hlen) fun first d hfirst => ?_
      have hshrunk := hsound.shrinks hc hfirst
      exact bind_congr_at (ha d (hsound.closed hc hfirst) (by omega)) fun _ _ _ => rfl

theorem statements_same (hsound : SoundStmt statement) (hs : Same m statement statement')
    (hb : m ≤ b) (hb' : m ≤ b') : Same m (statements statement b) (statements statement' b') := by
  induction m generalizing b b' with
  | zero => exact Same.zero _ _
  | succ m ih =>
      obtain ⟨n, rfl⟩ : ∃ n, b = n + 1 := ⟨b - 1, by omega⟩
      obtain ⟨n', rfl⟩ : ∃ n', b' = n' + 1 := ⟨b' - 1, by omega⟩
      rw [statements_step, statements_step]
      exact programStep_same hsound hs (ih (hs.mono (Nat.le_succ m)) (by omega) (by omega))

theorem statementStep_same (hxsound : Sound .expression expression)
    (hx : Same (m + 1) expression expression') (hsound : SoundStmt statement)
    (hs : Same m statement statement') {block block' : Parse (List Stmt)}
    (hblock : Same m block block') :
    Same (m + 1) (statementStep expression statement block)
      (statementStep expression' statement' block') := by
  intro c hc hlen
  unfold statementStep
  rw [bind_of_ok (peek_eq c), bind_of_ok (peek_eq c)]
  have hdefault : (do
      let value ← expression
      expect .semicolon
      return .expr c.current.location value : Parse Stmt) c = (do
      let value ← expression'
      expect .semicolon
      return .expr c.current.location value : Parse Stmt) c :=
    bind_congr_at (hx c hc hlen) fun _ _ _ => rfl
  cases hlex : c.current.lexeme with
  | symbol s text =>
      obtain ⟨hca, hless⟩ := advance_shrinks hc (kind_of_symbol hlex)
      cases s
      case return_ =>
        exact advance_congr (bind_congr_at (hx _ hca (by omega)) fun _ _ _ => rfl)
      case if_ =>
        refine advance_congr (bind_congr_at (condition_same hx _ hca (by omega)) fun e d he => ?_)
        obtain ⟨l, ts, r, hr, hcd, -⟩ := condition_sound hxsound hca he
        have hd := hr.length_rest
        refine bind_congr_at (hs d hcd (by omega)) fun body d' hbody => ?_
        have hcd' := hsound.closed hcd hbody
        have hshrunk := hsound.shrinks hcd hbody
        rw [bind_of_ok (at?_eq _ d'), bind_of_ok (at?_eq _ d')]
        cases helse : d'.current.isSymbol .else_ with
        | false => rfl
        | true =>
            obtain ⟨hca', hless'⟩ := advance_shrinks hcd' (kind_eq_symbol_iff.mpr helse)
            exact advance_congr (bind_congr_at (hs _ hca' (by omega)) fun _ _ _ => rfl)
      case while_ =>
        refine advance_congr (bind_congr_at (condition_same hx _ hca (by omega)) fun e d he => ?_)
        obtain ⟨l, ts, r, hr, hcd, -⟩ := condition_sound hxsound hca he
        have hd := hr.length_rest
        exact bind_congr_at (hs d hcd (by omega)) fun _ _ _ => rfl
      case for_ =>
        refine advance_congr (bind_congr_at rfl fun _ d₀ h₀ => ?_)
        obtain ⟨hc₀, hless₀⟩ := expect_shrinks hca h₀
        refine bind_congr_at (clause_same hx _ d₀ hc₀ (by omega)) fun i d₁ h₁ => ?_
        obtain ⟨ts₁, r₁, hr₁, hc₁, -⟩ := clause_sound hxsound hc₀ h₁
        have hd₁ := hr₁.length_rest
        refine bind_congr_at (clause_same hx _ d₁ hc₁ (by omega)) fun e d₂ h₂ => ?_
        obtain ⟨ts₂, r₂, hr₂, hc₂, -⟩ := clause_sound hxsound hc₁ h₂
        have hd₂ := hr₂.length_rest
        refine bind_congr_at (clause_same hx _ d₂ hc₂ (by omega)) fun u d₃ h₃ => ?_
        obtain ⟨ts₃, r₃, hr₃, hc₃, -⟩ := clause_sound hxsound hc₂ h₃
        have hd₃ := hr₃.length_rest
        exact bind_congr_at (hs d₃ hc₃ (by omega)) fun _ _ _ => rfl
      case leftBrace =>
        exact advance_congr (bind_congr_at (hblock _ hca (by omega)) fun _ _ _ => rfl)
      all_goals exact hdefault
  | identifier name => exact hdefault
  | number value => exact hdefault
  | endOfInput => exact hdefault

theorem statementForm_same (hxsound : Sound .expression expression)
    (hx : Same (m + 1) expression expression') (hsound : SoundStmt statement)
    (hs : Same m statement statement') (hb : m ≤ b) (hb' : m ≤ b') :
    Same (m + 1) (statementForm b expression statement)
      (statementForm b' expression' statement') := by
  rw [statementForm_step, statementForm_step]
  exact statementStep_same hxsound hx hsound hs (blockBody_same hsound hs hb hb')

theorem statement_same (hb : m ≤ b) (hb' : m ≤ b') :
    Same m (Parse.statement b) (Parse.statement b') := by
  induction m generalizing b b' with
  | zero => exact Same.zero _ _
  | succ m ih =>
      obtain ⟨n, rfl⟩ : ∃ n, b = n + 1 := ⟨b - 1, by omega⟩
      obtain ⟨n', rfl⟩ : ∃ n', b' = n' + 1 := ⟨b' - 1, by omega⟩
      have hn : m ≤ n := by omega
      have hn' : m ≤ n' := by omega
      exact statementForm_same (expression_sound _) (expression_same hb hb') (statement_sound n)
        (ih hn hn') hn hn'

/-- A program is read the same with every bound that is large enough. -/
theorem program_same (filename : String) {c : Cursor} (hc : c.Closed) (hb : c.rest.length ≤ b)
    (hb' : c.rest.length ≤ b') : program b filename c = program b' filename c := by
  refine bind_congr_at ?_ fun _ _ _ => rfl
  exact statements_same (statement_sound b) (statement_same hb hb') hb hb' c hc le_rfl

end Parse

end StackLang
