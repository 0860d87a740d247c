import StackLang.Proofs.Interruption
import StackLang.Proofs.NestingBound
import StackLang.Proofs.OwnTokens

/-!
# Recursive descent

The readers call each other without a bound, if the bound on the nesting is left out: a statement
calls the reader of expressions, which goes down through all levels of operators before a token is
passed, and the readers of chains and blocks call themselves. Such a recursion may fail to halt. It
does halt, since every call is made at a later token or, at the same token, on a lower level.
-/

namespace StackLang.Parse

open Grammar

/-! ## Calls -/

/-- What readers are called for. -/
inductive Call where
  | expr (form : Form)
  /-- The operators of a level that follow an operand. -/
  | operators (rank : Rank) (left : Expr)
  | stmt
  /-- Statements up to the closing brace. -/
  | block
  /-- Statements up to the end of the input. -/
  | program

abbrev Call.Value : Call → Type
  | .expr _ => Expr
  | .operators _ _ => Expr
  | .stmt => Stmt
  | .block => List Stmt
  | .program => List Stmt

/-- What each reader does, where it calls others and itself by `call`. -/
def descend (call : (k : Call) → Parse k.Value) : (k : Call) → Parse k.Value
  | .expr .primary => primary (call (.expr .expression))
  | .expr .unary => unary (call (.expr .expression))
  | .expr (.level rank) => call (.expr rank.operand) >>= fun left => call (.operators rank left)
  | .expr .expression => assignmentStep (call (.expr (.level .equality))) (call (.expr .expression))
  | .operators rank left =>
    operatorStep (call (.expr rank.operand)) rank.level (fun left => call (.operators rank left))
      left
  | .stmt => statementStep (call (.expr .expression)) (call .stmt) (call .block)
  | .block => blockStep (call .stmt) (call .block)
  | .program => programStep (call .stmt) (call .program)

/-- The recursion of `descend` halts at a call and yields a result: there are calls at which it
halts, and what these yield settles the result. A call that comes back to itself does not halt. -/
inductive Halts : (k : Call) → Cursor → EStateM.Result ParseFault Cursor k.Value → Prop where
  | intro {k : Call} {c : Cursor} {r : EStateM.Result ParseFault Cursor k.Value}
      (Made : Call → Cursor → Prop) (value : (k : Call) → Parse k.Value) :
      (∀ k' c', Made k' c' → Halts k' c' (value k' c')) →
      (∀ call : (k : Call) → Parse k.Value,
        (∀ k' c', Made k' c' → value k' c' = call k' c') → r = descend call k c) →
      Halts k c r

theorem Halts.unique {k : Call} {c : Cursor} {r r' : EStateM.Result ParseFault Cursor k.Value}
    (h : Halts k c r) (h' : Halts k c r') : r = r' := by
  classical
  induction h with
  | intro Made value _ hsettles ih =>
      cases h' with
      | intro Made' value' hhalts' hsettles' =>
          let call : (k : Call) → Parse k.Value := fun k c =>
            if Made' k c then value' k c else value k c
          have hleft : ∀ k c, Made k c → value k c = call k c := by
            intro k c hmade
            by_cases hmade' : Made' k c
            · simpa only [call, hmade', if_true] using ih k c hmade (hhalts' k c hmade')
            · simp only [call, hmade', if_false]
          have hright : ∀ k c, Made' k c → value' k c = call k c := by
            intro k c hmade'
            simp only [call, hmade', if_true]
          exact (hsettles call hleft).trans (hsettles' call hright).symm

/-! ## The readers in use -/

/-- The reader of each form of expressions. -/
def formReader (bound : Nat) : Form → Parse Expr
  | .primary => primary (expression bound)
  | .unary => unary (expression bound)
  | .level .multiplicative => multiplicative bound (expression bound)
  | .level .additive => additive bound (expression bound)
  | .level .relational => relational bound (expression bound)
  | .level .equality => equality bound (expression bound)
  | .expression => expression bound

def reader (bound : Nat) : (k : Call) → Parse k.Value
  | .expr form => formReader bound form
  | .operators rank left => chainFrom (formReader bound rank.operand) rank.level bound left
  | .stmt => statement bound
  | .block => blockBody (statement bound) bound
  | .program => statements (statement bound) bound

theorem formReader_level (bound : Nat) (rank : Rank) :
    formReader bound (.level rank) = chain bound rank.level (formReader bound rank.operand) := by
  cases rank <;> rfl

/-- What holds of the reader of unary forms, and of a chain if it does of its operands, holds of the
readers of all levels. -/
theorem formReader_levels {P : Form → Parse Expr → Prop} {bound : Nat}
    (hunary : P .unary (formReader bound .unary))
    (hchain : ∀ rank : Rank, P rank.operand (formReader bound rank.operand) →
      P (.level rank) (chain bound rank.level (formReader bound rank.operand))) (rank : Rank) :
    P (.level rank) (formReader bound (.level rank)) := by
  have hmul := hchain .multiplicative hunary
  have hadd := hchain .additive hmul
  have hrel := hchain .relational hadd
  cases rank with
  | multiplicative => exact hmul
  | additive => exact hadd
  | relational => exact hrel
  | equality => exact hchain .equality hrel

theorem formReader_sound (bound : Nat) (form : Form) : Sound form (formReader bound form) := by
  have hx := expression_sound bound
  cases form with
  | primary => exact primary_sound hx
  | unary => exact unary_sound hx
  | level rank =>
      exact formReader_levels (P := Sound) (unary_sound hx)
        (fun rank hoperand => chain_sound rank hoperand bound) rank
  | expression => exact hx

theorem formReader_viable (bound : Nat) (form : Form) :
    Viable (ExprSentence form) (formReader bound form) := by
  have hx := expression_sound bound
  have hv := expression_viable bound
  cases form with
  | primary => exact primary_viable hx hv
  | unary => exact unary_viable hx hv
  | level rank =>
      exact formReader_levels (P := fun form p => Viable (ExprSentence form) p)
        (unary_viable hx hv)
        (fun rank hoperand =>
          chain_viable rank (formReader_sound bound rank.operand) hoperand bound) rank
  | expression => exact hv

/-! ## Halting -/

/-- The level of a call: without passing a token, a call is made on a lower level only. -/
def Call.height : Call → Nat
  | .expr .primary | .expr .unary | .operators _ _ => 0
  | .expr (.level .multiplicative) => 1
  | .expr (.level .additive) => 2
  | .expr (.level .relational) => 3
  | .expr (.level .equality) => 4
  | .expr .expression => 5
  | .stmt => 6
  | .block | .program => 7

theorem Call.height_operand (rank : Rank) :
    Call.height (.expr rank.operand) < Call.height (.expr (.level rank)) := by
  cases rank <;> decide

/-- What gets less from call to call: the tokens ahead first, and then the level. -/
def Call.weight (k : Call) (c : Cursor) : Nat :=
  8 * c.rest.length + k.height

theorem Call.height_lt (k : Call) : k.height < 8 := by
  cases k with
  | expr form =>
      cases form with
      | level rank => cases rank <;> decide
      | _ => decide
  | operators rank left => exact Nat.zero_lt_succ 7
  | _ => decide

/-- A reader in use does what `descend` does with any readers that agree with those in use on all
calls of less weight. -/
theorem reader_eq_descend {bound : Nat} {k : Call} {c : Cursor} (hc : c.Closed)
    (hb : c.rest.length ≤ bound) {call : (k : Call) → Parse k.Value}
    (hcall : ∀ k' c', c'.Closed → Call.weight k' c' < Call.weight k c →
      reader bound k' c' = call k' c') :
    reader bound k c = descend call k c := by
  obtain ⟨m, hm⟩ : ∃ m, c.rest.length = m + 1 :=
    Nat.exists_eq_succ_of_ne_zero (Nat.ne_of_gt c.length_rest_pos)
  obtain ⟨b, rfl⟩ : ∃ b, bound = b + 1 := ⟨bound - 1, by omega⟩
  have hmb : m ≤ b := by omega
  have hlater : ∀ k', Same m (reader (b + 1) k') (call k') := by
    intro k' d hd hlen
    have hheight := k'.height_lt
    exact hcall k' d hd (by unfold Call.weight; omega)
  have hlower : ∀ k', k'.height < k.height → Same (m + 1) (reader (b + 1) k') (call k') := by
    intro k' hk' d hd hlen
    exact hcall k' d hd (by unfold Call.weight; omega)
  cases k with
  | expr form =>
      cases form with
      | primary => exact primary_same (hlater (.expr .expression)) c hc hm.le
      | unary => exact unary_same (hlater (.expr .expression)) c hc hm.le
      | level rank =>
          have hsound := formReader_sound (b + 1) rank.operand
          have hoperand := hlower (.expr rank.operand) (Call.height_operand rank)
          have hreader : reader (b + 1) (.expr (.level rank)) = _ := formReader_level (b + 1) rank
          rw [hreader]
          refine bind_congr_at (hoperand c hc hm.le) fun left d hleft => ?_
          have hshrunk := hsound.shrinks hc hleft
          exact hlater (.operators rank left) d (hsound.closed hc hleft) (by omega)
      | expression =>
          have hx : Same m (expression b) (call (.expr .expression)) :=
            (expression_same hmb (by omega)).trans (hlater (.expr .expression))
          have he : Same (m + 1) (equality b (expression b)) (call (.expr (.level .equality))) :=
            (equality_same (expression_sound b) (expression_same hmb (by omega)) hmb
              (by omega)).trans (hlower (.expr (.level .equality)) (by decide))
          exact assignmentStep_same (equality_sound (expression_sound b) b) he hx c hc hm.le
  | operators rank left =>
      have hsound := formReader_sound (b + 1) rank.operand
      have hagain : ∀ left, Same m (chainFrom (formReader (b + 1) rank.operand) rank.level b left)
          (call (.operators rank left)) := by
        intro left
        exact (chainFrom_same hsound (Same.refl m _) hmb (by omega) left).trans
          (hlater (.operators rank left))
      exact operatorStep_same hsound (hlater (.expr rank.operand)) hagain left c hc hm.le
  | stmt =>
      have hs : Same m (statement b) (statement (b + 1)) := statement_same hmb (by omega)
      refine statementStep_same (expression_sound (b + 1)) (hlower (.expr .expression) (by decide))
        (statement_sound b) (hs.trans (hlater .stmt)) ?_ c hc hm.le
      exact (blockBody_same (statement_sound b) hs hmb (by omega)).trans (hlater .block)
  | block =>
      have hsound := statement_sound (b + 1)
      refine blockStep_same hsound (hlower .stmt (by decide)) ?_ c hc hm.le
      exact (blockBody_same hsound (Same.refl m _) hmb (by omega)).trans (hlater .block)
  | program =>
      have hsound := statement_sound (b + 1)
      refine programStep_same hsound (hlower .stmt (by decide)) ?_ c hc hm.le
      exact (statements_same hsound (Same.refl m _) hmb (by omega)).trans (hlater .program)

theorem halts_reader {bound : Nat} (k : Call) {c : Cursor} (hc : c.Closed)
    (hb : c.rest.length ≤ bound) : Halts k c (reader bound k c) := by
  induction hw : k.weight c using Nat.strong_induction_on generalizing k c with
  | h w ih =>
      subst hw
      refine .intro (fun k' c' => c'.Closed ∧ k'.weight c' < k.weight c) (reader bound) ?_ ?_
      · rintro k' c' ⟨hc', hless⟩
        have hlen : c'.rest.length ≤ c.rest.length := by
          have hheight := k.height_lt
          unfold Call.weight at hless
          omega
        exact ih _ hless k' hc' (hlen.trans hb) rfl
      · intro call hcall
        exact reader_eq_descend hc hb fun k' c' hc' hless => hcall k' c' ⟨hc', hless⟩

/-! ## Places -/

/-- The place of the first end of the input. -/
def firstEnd (tokens : List Token) : Nat :=
  tokens.findIdx Token.isEnd

/-- The cursor is at token number `i`, which is not past the first end of the input. -/
structure StandsAt (tokens : List Token) (i : Nat) (c : Cursor) : Prop where
  rest : c.rest = tokens.drop i
  le : i ≤ firstEnd tokens

section

variable {tokens : List Token} {i : Nat} {c c' : Cursor}

theorem exists_firstEnd (h : ∃ t ∈ tokens, t.isEnd = true) :
    ∃ t, tokens[firstEnd tokens]? = some t ∧ t.isEnd = true := by
  have hlt : firstEnd tokens < tokens.length := List.findIdx_lt_length.mpr h
  exact ⟨_, List.getElem?_eq_getElem hlt, List.findIdx_getElem⟩

theorem not_isEnd_of_lt {t : Token} (hi : i < firstEnd tokens) (ht : tokens[i]? = some t) :
    t.isEnd = false := by
  obtain ⟨hlt, rfl⟩ := List.getElem?_eq_some_iff.mp ht
  simpa using List.not_of_lt_findIdx hi

theorem StandsAt.current (h : StandsAt tokens i c) : tokens[i]? = some c.current := by
  have hhead := congrArg List.head? h.rest
  rw [List.head?_drop] at hhead
  exact hhead.symm

theorem StandsAt.closed (h : StandsAt tokens i c) (hend : ∃ t ∈ tokens, t.isEnd = true) :
    c.Closed := by
  obtain ⟨t, ht, htrue⟩ := exists_firstEnd hend
  have hle := h.le
  refine ⟨t, List.mem_of_getElem? (i := firstEnd tokens - i) ?_, htrue⟩
  rw [h.rest, List.getElem?_drop, Nat.add_sub_cancel' hle, ht]

/-- Having read tokens that are no end, the cursor is that much further on. -/
theorem StandsAt.reads (h : StandsAt tokens i c) (hend : ∃ t ∈ tokens, t.isEnd = true)
    {ts : List Token} (hr : Reads c c' ts) (hts : ∀ t ∈ ts, t.isEnd = false) :
    StandsAt tokens (i + ts.length) c' ∧ (tokens.take (i + ts.length)).drop i = ts := by
  have hsplit : tokens.drop i = ts ++ c'.rest := h.rest.symm.trans hr.rest
  refine ⟨⟨?_, ?_⟩, ?_⟩
  · rw [← List.drop_drop, hsplit, List.drop_left]
  · by_contra hnot
    have hle := h.le
    obtain ⟨t, ht, htrue⟩ := exists_firstEnd hend
    have hmem : ts[firstEnd tokens - i]? = some t := by
      rw [← ht, ← List.getElem?_append_left (by omega), ← hsplit, List.getElem?_drop,
        Nat.add_sub_cancel' hle]
    rw [hts t (List.mem_of_getElem? hmem)] at htrue
    cases htrue
  · rw [List.drop_take, Nat.add_sub_cancel_left, hsplit, List.take_left]

/-- Moving on stops at the first end of the input. -/
theorem StandsAt.advance (h : StandsAt tokens i c) (hend : ∃ t ∈ tokens, t.isEnd = true) :
    StandsAt tokens (min (i + 1) (firstEnd tokens)) c.advance := by
  rcases h.le.lt_or_eq with hlt | heq
  · have hnot := not_isEnd_of_lt hlt h.current
    have hrest := (Cursor.rest_advance (h.closed hend) hnot).symm.trans h.rest
    refine ⟨?_, Nat.min_le_right _ _⟩
    rw [Nat.min_eq_left hlt, Nat.succ_eq_add_one, ← List.tail_drop, ← hrest, List.tail_cons]
  · obtain ⟨t, ht, htrue⟩ := exists_firstEnd hend
    have hcurrent : c.current.isEnd = true := by
      rw [← heq, h.current] at ht
      rw [Option.some.inj ht, htrue]
    have hstay : c.advance = c := by rw [Cursor.advance, if_pos hcurrent]
    rw [hstay, ← heq, Nat.min_eq_right (Nat.le_succ i)]
    exact h

end

/-! ## Progress -/

/-- How a call ends that was made at token number `i`: at a later token, with something that was
built from the tokens in between, or else with a fault. Either way the cursor is not past the first
end of the input. -/
inductive Progress (tokens : List Token) (i : Nat) {α : Type}
    (Builds : SlotTable → List Token → α → Prop) : EStateM.Result ParseFault Cursor α → Prop where
  | ok {a : α} {c : Cursor} {j : Nat} : i < j → StandsAt tokens j c →
      Builds c.slots ((tokens.take j).drop i) a → Progress tokens i Builds (.ok a c)
  | error {fault : ParseFault} {c : Cursor} {j : Nat} : i ≤ j → StandsAt tokens j c →
      Progress tokens i Builds (.error fault c)

section

variable {tokens : List Token} {i : Nat} {c c' : Cursor}

/-- A reader fails after tokens that begin a sentence, among which there is no end. -/
theorem progress_of_interrupted {α : Type} {Builds : SlotTable → List Token → α → Prop}
    {S : List Kind → Prop} (hS : ∀ ks, S ks → .endOfInput ∉ ks) {fault : ParseFault}
    (hc : StandsAt tokens i c) (hend : ∃ t ∈ tokens, t.isEnd = true)
    (h : Interrupted S c fault c') : Progress tokens i Builds (.error fault c') := by
  obtain ⟨ts, us, -, hr, hsentence, -⟩ := h
  have hts : ∀ t ∈ ts, t.isEnd = false :=
    not_isEnd_of_not_mem fun hmem => hS _ hsentence (List.mem_append_left _ hmem)
  exact .error (Nat.le_add_right i _) (hc.reads hend hr hts).1

theorem progress_of_reads {α : Type} {Builds : SlotTable → List Token → α → Prop} {a : α}
    {ts : List Token} (hc : StandsAt tokens i c) (hend : ∃ t ∈ tokens, t.isEnd = true)
    (hr : Reads c c' ts) (hne : ts ≠ []) (hts : ∀ t ∈ ts, t.isEnd = false)
    (hbuilds : Builds c'.slots ts a) : Progress tokens i Builds (.ok a c') := by
  obtain ⟨hstands, hbetween⟩ := hc.reads hend hr hts
  have hpos := List.length_pos_iff.mpr hne
  exact .ok (by omega) hstands (hbetween.symm ▸ hbuilds)

end

/-- A cursor at or before the first end of the input. Moving on leaves it there, so a token is
always found. Every reader of expressions and that of statements fails there, or gets past at least
one token, is still there, and has built what the grammar derives from the tokens it passed. The
nodes of that are made of these tokens: each has one of its own, but for the zero of a minus sign.
So the recursion of the readers, with its loops over operators, blocks and programs, halts at every
call, and yields what the readers with a bound do. -/
theorem calls_progress {tokens : List Token} {c : Cursor} {i bound : Nat}
    (hend : ∃ t ∈ tokens, t.isEnd = true) (hc : StandsAt tokens i c)
    (hbound : c.rest.length ≤ bound) :
    i < tokens.length ∧ StandsAt tokens (min (i + 1) (firstEnd tokens)) c.advance ∧
      (∀ form, Progress tokens i
        (fun slots ts e => DerivesExpr slots.place form ts e ∧ MadeOf slots.place ts e.nodes)
        (formReader bound form c)) ∧
      Progress tokens i
        (fun slots ts s => DerivesStmt slots.place ts s ∧ MadeOf slots.place ts s.nodes)
        (statement bound c) ∧
      ∀ k r, Halts k c r ↔ r = reader bound k c := by
  have hclosed := hc.closed hend
  refine ⟨(List.getElem?_eq_some_iff.mp hc.current).choose, hc.advance hend, fun form => ?_, ?_,
    fun k r => ⟨fun h => h.unique (halts_reader k hclosed hbound), ?_⟩⟩
  · cases hrun : formReader bound form c with
    | ok e c' =>
        obtain ⟨ts, hr, hd⟩ := formReader_sound bound form hclosed hrun
        have hderives := hd _ (agrees_place c'.slots)
        exact progress_of_reads hc hend hr hderives.ne_nil hderives.not_isEnd
          ⟨hderives, hderives.madeOf⟩
    | error fault c' =>
        exact progress_of_interrupted (fun _ hks => hks.not_mem_end) hc hend
          (formReader_viable bound form hclosed hrun)
  · cases hrun : statement bound c with
    | ok s c' =>
        obtain ⟨ts, hr, hd⟩ := (statement_sound bound hclosed hrun).derives
        have hderives := hd _ (agrees_place c'.slots)
        exact progress_of_reads hc hend hr hderives.ne_nil hderives.not_isEnd
          ⟨hderives, hderives.madeOf⟩
    | error fault c' =>
        exact progress_of_interrupted (fun _ hks => hks.not_mem_end) hc hend
          (statement_viable bound hclosed hrun)
  · rintro rfl
    exact halts_reader k hclosed hbound

/-- The tokens of `x = -1;`, an end of the input, and more tokens with another end behind it. -/
def earlyEnd : List Token :=
  [.identifier "x", .symbol .assign "=", .symbol .minus "-", .number 1, .symbol .semicolon ";",
    .endOfInput, .symbol .rightParen ")", .endOfInput].mapIdx
    fun i l => ⟨l, ⟨"<input>", 1, i + 1, i⟩⟩

theorem calls_progress_earlyEnd :
    ∃ c s c', StandsAt earlyEnd 0 c ∧ firstEnd earlyEnd = 5 ∧ statement 8 c = .ok s c' ∧
      StandsAt earlyEnd 5 c' ∧ DerivesStmt c'.slots.place (earlyEnd.take 5) s ∧
      MadeOf c'.slots.place (earlyEnd.take 5) s.nodes ∧ Halts .stmt c (.ok s c') := by
  have hfirst : firstEnd earlyEnd = 5 := by decide
  have hend : ∃ t ∈ earlyEnd, t.isEnd = true := by decide
  let c : Cursor := ⟨⟨.identifier "x", ⟨"<input>", 1, 1, 0⟩⟩, earlyEnd.drop 1, {}⟩
  have hc : StandsAt earlyEnd 0 c := ⟨rfl, Nat.zero_le _⟩
  have hbound : c.rest.length ≤ 8 := by decide
  obtain ⟨-, -, -, hstatement, hhalts⟩ := calls_progress hend hc hbound
  have hcheck : (match statement 8 c with
      | .error _ _ => false
      | .ok _ c' => decide (c'.rest.length = 3)) = true := by
    decide +kernel
  cases hrun : statement 8 c with
  | error fault c' =>
      rw [hrun] at hcheck
      cases hcheck
  | ok s c' =>
      rw [hrun] at hcheck hstatement
      cases hstatement with
      | @ok _ _ j hlater hstands hbuilds =>
          have hlength : c'.rest.length = 3 := of_decide_eq_true hcheck
          rw [hstands.rest, List.length_drop, show earlyEnd.length = 8 from rfl] at hlength
          obtain rfl : j = 5 := by omega
          exact ⟨c, s, c', hc, hfirst, hrun, hstands, hbuilds.1, hbuilds.2,
            (hhalts .stmt _).mpr hrun.symm⟩

/-- The tokens of `-x` and the end of the input. -/
def signedName : List Token :=
  [.symbol .minus "-", .identifier "x", .endOfInput].mapIdx fun i l => ⟨l, ⟨"<input>", 1, i + 1, i⟩⟩

/-- Two tokens are read, and the tree has three nodes: the subtraction, a zero and the name. So it
cannot be that each node has a token of its own. -/
theorem signedName_shares_token :
    ∃ c e c', StandsAt signedName 0 c ∧ expression 3 c = .ok e c' ∧ StandsAt signedName 2 c' ∧
      ∀ own : Fin e.nodes.length → Fin (signedName.take 2).length, ¬ Function.Injective own := by
  let c : Cursor := ⟨⟨.symbol .minus "-", ⟨"<input>", 1, 1, 0⟩⟩, signedName.drop 1, {}⟩
  refine ⟨c, _, _, ⟨rfl, Nat.zero_le _⟩, rfl, ⟨rfl, by decide⟩, fun own hown => ?_⟩
  have hcard := Fintype.card_le_of_injective own hown
  rw [Fintype.card_fin, Fintype.card_fin] at hcard
  exact absurd hcard (by decide)

end StackLang.Parse
