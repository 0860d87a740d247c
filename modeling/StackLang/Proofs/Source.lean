import StackLang.Compile
import StackLang.Proofs.Code
import StackLang.Proofs.Decimal
import StackLang.Proofs.ParseProgram

/-!
# Programs read from text

A program that was read from text is made of forms of the language, its numbers are signed words
that are not negative, and every variable in it refers to the slot that the table of the program
has for its name.
-/

namespace StackLang

/-- A check of what was made holds of something that was made. -/
theorem exists_ok_of_any {ε α : Type} {r : Except ε α} {check : α → Bool}
    (h : r.toOption.any check = true) : ∃ a, r = .ok a ∧ check a = true := by
  cases r with
  | error e => simp [Except.toOption] at h
  | ok a => exact ⟨a, rfl, h⟩

/-! ## Numbers -/

/-- The numbers a program may write. -/
def IsLiteral (value : Int) : Prop :=
  0 ≤ value ∧ value ≤ Scan.largestLiteral

theorem IsLiteral.fewDigits {value : Int} (h : IsLiteral value) : FewDigits value := by
  have hlargest : (Scan.largestLiteral : Int) < 2 ^ 64 := by decide
  obtain ⟨hlow, hhigh⟩ := h
  exact fewDigits_of_lt (by omega)

namespace Scan

theorem numberPiece_literal {digits : List Char} {value : Int}
    (h : numberPiece digits = .lexeme (.number value)) : IsLiteral value := by
  unfold numberPiece at h
  cases hread : Text.readDecimal digits with
  | error excess => rw [hread] at h; cases h
  | ok n =>
      rw [hread] at h
      by_cases hlarge : largestLiteral < n
      · simp [hlarge] at h
      · have hvalue : (n : Int) = value := by simpa [hlarge] using h
        subst hvalue
        exact ⟨by omega, by omega⟩

theorem wordLexeme_ne_number (word : String) (value : Int) : wordLexeme word ≠ .number value := by
  unfold wordLexeme
  cases Symbol.keyword? word <;> simp

theorem cutComparison_ne_number (double single : Symbol) (cs : List Char) (value : Int) :
    (cutComparison double single cs).1 ≠ .lexeme (.number value) := by
  unfold cutComparison
  split <;> simp

/-- A number is only ever cut out of digits. -/
theorem cut_literal {c : Char} {cs : List Char} {value : Int}
    (h : (cut c cs).1 = .lexeme (.number value)) : IsLiteral value := by
  unfold cut at h
  by_cases hspace : isSpace c = true
  · simp [hspace] at h
  by_cases hletter : isLetter c = true
  · simp [hspace, hletter, wordLexeme_ne_number] at h
  by_cases hdigit : isDigit c = true
  · simp only [hspace, hletter, hdigit, Bool.false_eq_true, if_false, if_true] at h
    exact numberPiece_literal h
  · simp only [hspace, hletter, hdigit, Bool.false_eq_true, if_false] at h
    split at h
    case h_2 => split at h <;> simp at h
    all_goals first
      | exact absurd h (cutComparison_ne_number _ _ _ _)
      | simp [cutSymbol] at h

/-- What holds of every lexeme that is cut out holds of all tokens. -/
theorem scanFrom_forall {P : Lexeme → Prop} (hend : P .endOfInput)
    (hpieces : ∀ c cs l n, cut c cs = (.lexeme l, n) → P l) (filename : String) (mark : Mark)
    (cs : List Char) : ∀ t ∈ (scanFrom filename mark cs).tokens, P t.lexeme := by
  fun_induction scanFrom filename mark cs with
  | case1 mark => simpa using hend
  | case2 mark c cs cause n hcut => simp
  | case3 mark c cs n hcut ih => exact ih
  | case4 mark c cs l n hcut ih =>
      exact List.forall_mem_cons.mpr ⟨hpieces c cs l n hcut, ih⟩

theorem scanFrom_literal (filename : String) (mark : Mark) (cs : List Char) :
    ∀ t ∈ (scanFrom filename mark cs).tokens, ∀ value, t.lexeme = .number value →
      IsLiteral value := by
  refine scanFrom_forall (P := fun l => ∀ value, l = .number value → IsLiteral value) (by simp)
    (fun c cs l n hcut value hl => ?_) filename mark cs
  exact cut_literal (c := c) (by rw [hcut, hl])

end Scan

/-! ## Derived trees -/

/-- The names and numbers of the tokens are as `P` and `N` want them. -/
def Supplies (place : String → Int) (P : VarRef → Prop) (N : Int → Prop) (ts : List Token) : Prop :=
  ∀ t ∈ ts, (∀ n l, t.lexeme = .identifier n → P ⟨l, n, place n⟩) ∧
    ∀ v, t.lexeme = .number v → N v

namespace Grammar

section

variable {place : String → Int} {P : VarRef → Prop} {N : Int → Prop}

theorem Supplies.append {ts us : List Token} (h : Supplies place P N (ts ++ us)) :
    Supplies place P N ts ∧ Supplies place P N us :=
  List.forall_mem_append.mp h

theorem Supplies.cons {t : Token} {ts : List Token} (h : Supplies place P N (t :: ts)) :
    Supplies place P N ts :=
  (List.forall_mem_cons.mp h).2

theorem Joins.all {rank : Rank} {s : Symbol} {a b e : Expr} (h : Joins rank s a b e)
    (ha : a.All P N) (hb : b.All P N) : e.All P N := by
  cases h <;> first | exact ⟨ha, hb⟩ | exact ⟨hb, ha⟩

theorem DerivesTarget.all {ts : List Token} {r : VarRef} (h : DerivesTarget place ts r)
    (hs : Supplies place P N ts) : P r := by
  induction h with
  | name _ ht => exact (hs _ (by simp)).1 _ _ ht
  | parentheses _ _ _ _ ih => exact ih (Supplies.append (Supplies.cons (Supplies.append hs).2)).1

theorem DerivesExpr.all {form : Form} {ts : List Token} {e : Expr}
    (h : DerivesExpr place form ts e) (hzero : N 0) (hs : Supplies place P N ts) :
    e.All P N := by
  induction h with
  | number ht => exact (hs _ (by simp)).2 _ ht
  | name ht => exact (hs _ (by simp)).1 _ _ ht
  | parentheses _ _ _ ih => exact ih (Supplies.append (Supplies.cons hs)).1
  | unsigned _ ih => exact ih hs
  | plus _ _ ih => exact ih (Supplies.cons hs)
  | minus _ _ ih => exact ⟨hzero, ih (Supplies.cons hs)⟩
  | operand _ ih => exact ih hs
  | operator _ _ _ hj iha ihb =>
      have hparts := Supplies.append hs
      exact hj.all (iha hparts.1) (ihb (Supplies.cons hparts.2))
  | equality _ ih => exact ih hs
  | assignment htarget _ _ ih =>
      have hparts := Supplies.append hs
      exact ⟨htarget.all hparts.1, ih (Supplies.cons hparts.2)⟩

theorem DerivesClause.all {ts : List Token} {clause : Option Expr}
    (h : DerivesClause place ts clause) (hzero : N 0) (hs : Supplies place P N ts) :
    ClauseAll P N clause := by
  cases h with
  | absent => trivial
  | present he => exact he.all hzero hs

mutual

theorem DerivesStmt.all {ts : List Token} {s : Stmt} (h : DerivesStmt place ts s) (hzero : N 0)
    (hs : Supplies place P N ts) : s.All P N := by
  cases h with
  | expr he _ =>
      rw [← List.cons_append] at hs
      exact he.all hzero (Supplies.append hs).1
  | ret _ he _ => exact he.all hzero (Supplies.append (Supplies.cons hs)).1
  | ifThen _ _ hc _ ha =>
      have hparts := Supplies.append (Supplies.cons (Supplies.cons hs))
      exact ⟨hc.all hzero hparts.1, ha.all hzero (Supplies.cons hparts.2)⟩
  | ifElse _ _ hc _ ha _ hb =>
      have hparts := Supplies.append (Supplies.cons (Supplies.cons hs))
      have hbodies := Supplies.append (Supplies.cons hparts.2)
      exact ⟨hc.all hzero hparts.1, ha.all hzero hbodies.1,
        hb.all hzero (Supplies.cons hbodies.2)⟩
  | while_ _ _ hc _ ha =>
      have hparts := Supplies.append (Supplies.cons (Supplies.cons hs))
      exact ⟨hc.all hzero hparts.1, ha.all hzero (Supplies.cons hparts.2)⟩
  | for_ _ _ hi _ hc _ hu _ ha =>
      have hinit := Supplies.append (Supplies.cons (Supplies.cons hs))
      have htest := Supplies.append (Supplies.cons hinit.2)
      have hupdate := Supplies.append (Supplies.cons htest.2)
      exact ⟨hi.all hzero hinit.1, hc.all hzero htest.1, hu.all hzero hupdate.1,
        ha.all hzero (Supplies.cons hupdate.2)⟩
  | block _ hss _ => exact hss.all hzero (Supplies.append (Supplies.cons hs)).1

theorem DerivesProgram.all {ts : List Token} {ss : List Stmt} (h : DerivesProgram place ts ss)
    (hzero : N 0) (hs : Supplies place P N ts) : AllStmts P N ss := by
  cases h with
  | nil => trivial
  | cons hs' hss =>
      have hparts := Supplies.append hs
      exact ⟨hs'.all hzero hparts.1, hss.all hzero hparts.2⟩

end

end

end Grammar

/-! ## Programs -/

/-- The variable refers to the slot of its name. -/
def SlotTable.Places (t : SlotTable) (r : VarRef) : Prop :=
  t.find? r.name = some ⟨r.name, r.offset⟩

/-- The program has slots in sequence for all its variables, and its numbers are literals. -/
structure Program.Sound (p : Program) : Prop where
  sequential : p.slots.Sequential
  statements : AllStmts p.slots.Places IsLiteral p.statements

theorem Cursor.of_ofTokens? {tokens : List Token} {c : Cursor} (h : ofTokens? tokens = some c) :
    c.rest = tokens ∧ c.slots = {} ∧ c.Closed := by
  cases tokens with
  | nil => exact absurd h (by simp [ofTokens?])
  | cons t ts =>
      rw [ofTokens?] at h
      by_cases hend : ((t :: ts).getLast (by simp)).isEnd = true
      · rw [if_pos hend, Option.some.injEq] at h
        subst h
        exact ⟨rfl, rfl, _, List.getLast_mem _, hend⟩
      · rw [if_neg hend] at h
        cases h

/-- The tokens of a text are those of its scan. -/
theorem scan_of_tokensOf {source filename : String} {tokens : List Token}
    (h : tokensOf source filename = .ok tokens) : (scan source filename).tokens = tokens := by
  unfold tokensOf at h
  cases hfault : (scan source filename).fault with
  | some fault => simp [hfault] at h
  | none => simpa [hfault] using h

theorem fault_of_tokensOf {source filename : String} {tokens : List Token}
    (h : tokensOf source filename = .ok tokens) : (scan source filename).fault = none := by
  by_contra hne
  obtain ⟨fault, hfault⟩ := Option.ne_none_iff_exists'.mp hne
  simp [tokensOf, hfault] at h

theorem tokensOf_literal {source filename : String} {tokens : List Token}
    (h : tokensOf source filename = .ok tokens) :
    ∀ t ∈ tokens, ∀ value, t.lexeme = .number value → IsLiteral value := by
  rw [← scan_of_tokensOf h]
  exact Scan.scanFrom_literal filename {} source.toList

/-- No number in a text is too long to be quoted. -/
theorem tokensOf_text {source filename : String} {tokens : List Token}
    (h : tokensOf source filename = .ok tokens) : ∀ t ∈ tokens, t.text? ≠ none := by
  intro t ht hnone
  obtain ⟨value, hvalue, hlong⟩ := Token.text?_eq_none_iff.mp hnone
  have hfew := (tokensOf_literal h t ht value hvalue).fewDigits
  exact absurd (fewDigits_iff.mp hfew) hlong.not_gt

/-- Reading a text is scanning it and reading its tokens. -/
theorem parseSource_ok {source filename : String} {p : Program}
    (h : parseSource source filename = .ok p) :
    ∃ tokens, tokensOf source filename = .ok tokens ∧
      readTokens tokens (Text.sourceLines source) (·.parseProgram filename) = .ok p := by
  unfold parseSource at h
  cases htokens : tokensOf source filename with
  | error f => rw [htokens] at h; cases h
  | ok tokens => exact ⟨tokens, rfl, by rwa [htokens] at h⟩

theorem readTokens_ok {α : Type} {tokens : List Token} {lines : List String}
    {parse : Cursor → EStateM.Result ParseFault Cursor α} {a : α}
    (h : readTokens tokens lines parse = .ok a) :
    ∃ c c', Cursor.ofTokens? tokens = some c ∧ parse c = .ok a c' := by
  unfold readTokens at h
  cases hc : Cursor.ofTokens? tokens with
  | none => simp [hc] at h
  | some c =>
      simp only [hc] at h
      cases hp : parse c with
      | error fault c' => simp [hp] at h
      | ok a' c' =>
          have haa : a' = a := by simpa [hp] using h
          exact ⟨c, c', rfl, by rw [← haa, hp]⟩

/-- What is read as a program derives from the tokens up to the end, over the slots of their
names. -/
theorem Cursor.parseProgram_derives {tokens : List Token} {c c' : Cursor} {filename : String}
    {p : Program} (hc : ofTokens? tokens = some c) (hp : c.parseProgram filename = .ok p c') :
    ∃ ts, ts <+: tokens ∧ p.slots = ({} : SlotTable).declareAll (namesOf ts) ∧
      Grammar.DerivesProgram p.slots.place ts p.statements := by
  obtain ⟨hrest, hempty, hclosed⟩ := Cursor.of_ofTokens? hc
  obtain ⟨⟨ts, hts, hd⟩, -, -, -, hslots⟩ := Cursor.parseProgram_sound hclosed hp
  refine ⟨ts, ⟨c'.rest, by rw [← hrest, hts.rest]⟩, ?_, ?_⟩
  · rw [hslots, hts.slots, hempty]
  · rw [hslots]
    exact hd

/-- The names of the tokens have the slots of the table that they fill. -/
theorem supplies_places {t : SlotTable} {ts : List Token} {N : Int → Prop}
    (ht : t = ({} : SlotTable).declareAll (namesOf ts))
    (hnumbers : ∀ u ∈ ts, ∀ v, u.lexeme = .number v → N v) : Supplies t.place t.Places N ts := by
  refine fun u hu => ⟨fun n l hn => ?_, hnumbers u hu⟩
  have hname : n ∈ namesOf ts := List.mem_filterMap.mpr ⟨u, hu, by simp [hn]⟩
  have hsome := SlotTable.isSome_find?_declareAll hname {}
  rw [← ht] at hsome
  obtain ⟨slot, hslot⟩ := Option.isSome_iff_exists.mp hsome
  have hplace := agrees_place t n slot hslot
  rw [SlotTable.Places, hslot, hplace, ← SlotTable.name_of_find? hslot]

theorem Cursor.parseProgram_places {tokens : List Token} {c c' : Cursor} {filename : String}
    {p : Program} {N : Int → Prop} (hc : ofTokens? tokens = some c)
    (hp : c.parseProgram filename = .ok p c') (hzero : N 0)
    (hnumbers : ∀ t ∈ tokens, ∀ v, t.lexeme = .number v → N v) :
    p.slots.Sequential ∧ AllStmts p.slots.Places N p.statements := by
  obtain ⟨ts, hfront, htable, hd⟩ := Cursor.parseProgram_derives hc hp
  refine ⟨?_, hd.all hzero (supplies_places htable fun t ht => hnumbers t (hfront.subset ht))⟩
  rw [htable]
  exact SlotTable.sequential_empty.declareAll _

/-- Every program that is read from text is sound. -/
theorem parseSource_sound {source filename : String} {p : Program}
    (h : parseSource source filename = .ok p) : p.Sound := by
  obtain ⟨tokens, htokens, hread⟩ := parseSource_ok h
  obtain ⟨c, c', hc, hp⟩ := readTokens_ok hread
  obtain ⟨hslots, hall⟩ := Cursor.parseProgram_places hc hp ⟨by decide, by decide⟩
    (tokensOf_literal htokens)
  exact ⟨hslots, hall⟩

end StackLang
