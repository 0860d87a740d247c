import StackLang.Proofs.Nodes
import StackLang.Proofs.SoleExpression

/-!
# Expressions as text

The text of an expression has all its parentheses and shows the slots of its variables. Without the
slots it is an expression of the language again, and reading it gives back the same tree.
-/

namespace StackLang

/-! ## Deleting slots -/

namespace Text

/-- What follows the slot `[rbp-N]` that a text starts with. -/
def afterSlot? : List Char → Option (List Char)
  | '[' :: 'r' :: 'b' :: 'p' :: '-' :: digit :: cs =>
    if digit.isDigit then
      match cs.dropWhile Char.isDigit with
      | ']' :: rest => some rest
      | _ => none
    else none
  | _ => none

theorem length_lt_of_afterSlot? {cs rest : List Char} (h : afterSlot? cs = some rest) :
    rest.length < cs.length := by
  unfold afterSlot? at h
  split at h
  next digit tail =>
    have hle := (List.dropWhile_sublist Char.isDigit (l := tail)).length_le
    split at h
    · split at h
      next later heq =>
        cases h
        rw [heq] at hle
        simp only [List.length_cons] at hle ⊢
        omega
      · contradiction
    · contradiction
  · contradiction

/-- A text without its slots. -/
def dropSlots (cs : List Char) : List Char :=
  match cs with
  | [] => []
  | c :: rest =>
    match _h : afterSlot? (c :: rest) with
    | some later => dropSlots later
    | none => c :: dropSlots rest
termination_by cs.length
decreasing_by
  · exact length_lt_of_afterSlot? _h
  · simp

theorem dropSlots_of_some {cs later : List Char} (h : afterSlot? cs = some later) :
    dropSlots cs = dropSlots later := by
  cases cs with
  | nil => cases h
  | cons c rest =>
      rw [dropSlots]
      split
      · next later' heq =>
        cases h.symm.trans heq
        rfl
      · next heq => cases h.symm.trans heq

theorem dropSlots_of_none {c : Char} {rest : List Char} (h : afterSlot? (c :: rest) = none) :
    dropSlots (c :: rest) = c :: dropSlots rest := by
  rw [dropSlots]
  split
  · next later heq => cases h.symm.trans heq
  · rfl

theorem dropSlots_append {cs : List Char} (h : '[' ∉ cs) (rest : List Char) :
    dropSlots (cs ++ rest) = cs ++ dropSlots rest := by
  induction cs with
  | nil => rfl
  | cons c cs ih =>
      obtain ⟨hc, hcs⟩ := List.ne_and_not_mem_of_not_mem_cons h
      have hnone : afterSlot? (c :: (cs ++ rest)) = none := by
        unfold afterSlot?
        split
        · next heq => exact absurd (List.cons.inj heq).1.symm hc
        · rfl
      rw [List.cons_append, dropSlots_of_none hnone, ih hcs, List.cons_append]

theorem dropSlots_slot (n : Nat) (rest : List Char) :
    dropSlots ("[rbp-".toList ++ (n.repr.toList ++ ']' :: rest)) = dropSlots rest := by
  obtain ⟨digit, digits, hdigits⟩ := List.exists_cons_of_ne_nil (repr_ne_nil n)
  have hall : ∀ c ∈ digit :: digits, c.isDigit = true := by
    rw [← hdigits]
    exact fun c hc => ascii_of_mem_repr hc
  have hdrop : (digits ++ ']' :: rest).dropWhile Char.isDigit = ']' :: rest := by
    rw [List.dropWhile_append_of_pos fun c hc => hall c (List.mem_cons_of_mem _ hc)]
    rfl
  apply dropSlots_of_some
  rw [hdigits]
  change afterSlot? ('[' :: 'r' :: 'b' :: 'p' :: '-' :: digit :: (digits ++ ']' :: rest)) = _
  simp only [afterSlot?, hall digit List.mem_cons_self, hdrop, if_true]

end Text

/-- An expression with all its parentheses, but without slots. -/
def Expr.plainText : Expr → String
  | .number _ value => toString value
  | .var r => r.name
  | .binary _ op a b => "(" ++ a.plainText ++ " " ++ op.spelling ++ " " ++ b.plainText ++ ")"
  | .assign _ r e => "(" ++ r.name ++ " = " ++ e.plainText ++ ")"
  | .bare _ => "<Expression>"

theorem VarRef.toList_text (r : VarRef) :
    r.text.toList = r.name.toList ++ ("[rbp-".toList ++ ((toString r.offset).toList ++ [']'])) := by
  simp only [VarRef.text, String.toList_append, List.append_assoc]
  rfl

theorem not_mem_isNamePart {cs : List Char} (h : ∀ c ∈ cs, Scan.isNamePart c = true) :
    '[' ∉ cs :=
  fun hmem => absurd (h '[' hmem) (by decide)

theorem toList_toString_nat (n : Nat) : (toString (n : Int)).toList = n.repr.toList := by
  rw [toList_toString_int]
  rfl

theorem VarRef.Written.dropSlots_text {r : VarRef} (h : r.Written) (rest : List Char) :
    Text.dropSlots (r.text.toList ++ rest) = r.name.toList ++ Text.dropSlots rest := by
  obtain ⟨n, hn⟩ := Int.eq_ofNat_of_zero_le h.offset.le
  rw [r.toList_text, List.append_assoc, Text.dropSlots_append (not_mem_isNamePart h.name.1.2), hn,
    toList_toString_nat, List.append_assoc, List.append_assoc, List.singleton_append,
    Text.dropSlots_slot]

/-- Deleting the slots leaves the text without slots. -/
theorem Expr.dropSlots_text {e : Expr} (h : e.All VarRef.Written IsLiteral) (rest : List Char) :
    Text.dropSlots (e.text.toList ++ rest) = e.plainText.toList ++ Text.dropSlots rest := by
  induction e generalizing rest with
  | number l value =>
      obtain ⟨n, rfl⟩ := Int.eq_ofNat_of_zero_le h.1
      refine Text.dropSlots_append (not_mem_isNamePart fun c hc => ?_) rest
      rw [Expr.text, toList_toString_nat] at hc
      exact Scan.isNamePart_of_isDigit ((Scan.isNumeral_repr n).2 c hc)
  | var r => exact VarRef.Written.dropSlots_text h rest
  | binary l op a b iha ihb =>
      have hop : '[' ∉ " ".toList ++ (op.spelling.toList ++ " ".toList) := by cases op <;> decide
      have htext : (Expr.binary l op a b).text.toList ++ rest = "(".toList ++ (a.text.toList ++
          ((" ".toList ++ (op.spelling.toList ++ " ".toList)) ++ (b.text.toList ++
            (")".toList ++ rest)))) := by
        simp [Expr.text]
      rw [htext, Text.dropSlots_append (by decide), iha h.1, Text.dropSlots_append hop, ihb h.2,
        Text.dropSlots_append (by decide)]
      simp [Expr.plainText]
  | assign l r e ih =>
      have htext : (Expr.assign l r e).text.toList ++ rest = "(".toList ++ (r.text.toList ++
          (" = ".toList ++ (e.text.toList ++ (")".toList ++ rest)))) := by
        simp [Expr.text]
      rw [htext, Text.dropSlots_append (by decide), h.1.dropSlots_text,
        Text.dropSlots_append (by decide), ih h.2, Text.dropSlots_append (by decide)]
      simp [Expr.plainText]
  | bare l => exact h.elim

theorem Expr.ofList_dropSlots_text {e : Expr} (h : e.All VarRef.Written IsLiteral) :
    String.ofList (Text.dropSlots e.text.toList) = e.plainText := by
  have hdrop := Expr.dropSlots_text h []
  rw [List.append_nil, Text.dropSlots, List.append_nil] at hdrop
  rw [hdrop, String.ofList_toList]

/-! ## Tokens of the text -/

def BinaryOp.symbol : BinaryOp → Symbol
  | .add => .plus
  | .sub => .minus
  | .mul => .star
  | .div => .slash
  | .eq => .eq
  | .ne => .ne
  | .lt => .lt
  | .le => .le

theorem BinaryOp.spelling_symbol (op : BinaryOp) : op.symbol.spelling = op.spelling := by
  cases op <;> rfl

/-- What the text of an expression says. -/
def Expr.lexemes : Expr → List Lexeme
  | .number _ value => [.number value]
  | .var r => [.identifier r.name]
  | .binary _ op a b => .symbol .leftParen "(" ::
      (a.lexemes ++ .symbol op.symbol op.spelling :: (b.lexemes ++ [.symbol .rightParen ")"]))
  | .assign _ r e => .symbol .leftParen "(" ::
      (.identifier r.name :: .symbol .assign "=" :: (e.lexemes ++ [.symbol .rightParen ")"]))
  | .bare _ => []

namespace Scan

theorem Scans.leftParen (after : List Char) : Scans ['('] [.symbol .leftParen "("] after :=
  .of_cut rfl

theorem Scans.rightParen (after : List Char) : Scans [')'] [.symbol .rightParen ")"] after :=
  .of_cut rfl

/-- A symbol with a space on either side. -/
theorem Scans.spaced (s : Symbol) (after : List Char) :
    Scans (' ' :: (s.spelling.toList ++ [' '])) [.symbol s s.spelling] after := by
  have hsymbol : Scans s.spelling.toList [.symbol s s.spelling] (' ' :: after) :=
    .symbol s (by simp [blanks])
  exact (Scans.blank (by decide) _).append (hsymbol.append (.blank (by decide) after))

end Scan

open Scan in
theorem Expr.scans_plainText {e : Expr} (h : e.All VarRef.Written IsLiteral) {after : List Char}
    (hafter : ∀ c ∈ after.head?, isNamePart c = false) :
    Scans e.plainText.toList e.lexemes after := by
  have hspace : ∀ cs : List Char, ∀ c ∈ (' ' :: cs).head?, isNamePart c = false := by
    simp; decide
  have hclose : ∀ cs : List Char, ∀ c ∈ (')' :: cs).head?, isNamePart c = false := by
    simp; decide
  induction e generalizing after with
  | number l value => exact .number h hafter
  | var r => exact .name h.name hafter
  | binary l op a b iha ihb =>
      have hall := (Scans.leftParen _).append ((iha h.1 (hspace _)).append
        ((Scans.spaced op.symbol _).append ((ihb h.2 (hclose after)).append (.rightParen after))))
      simpa [Expr.plainText, Expr.lexemes, op.spelling_symbol] using hall
  | assign l r e ih =>
      have hall := (Scans.leftParen _).append ((Scans.name h.1.name (hspace _)).append
        ((Scans.spaced .assign _).append ((ih h.2 (hclose after)).append (.rightParen after))))
      simpa [Expr.plainText, Expr.lexemes, Symbol.spelling] using hall
  | bare l => exact h.elim

/-! ## The tree of the text -/

/-- The same forms, operators, numbers and names everywhere. -/
inductive Expr.Alike : Expr → Expr → Prop where
  | number {l l' value} : Alike (.number l value) (.number l' value)
  | var {r r'} : r.name = r'.name → Alike (.var r) (.var r')
  | binary {l l' op a a' b b'} : Alike a a' → Alike b b' →
      Alike (.binary l op a b) (.binary l' op a' b')
  | assign {l l' r r' e e'} : r.name = r'.name → Alike e e' →
      Alike (.assign l r e) (.assign l' r' e')

namespace Grammar

variable {place : String → Int} {ts : List Token} {e : Expr}

/-- What one level derives, looser levels derive as well. -/
theorem DerivesExpr.expression_of_level {rank : Rank} (h : DerivesExpr place (.level rank) ts e) :
    DerivesExpr place .expression ts e := by
  have hequality : DerivesExpr place (.level .relational) ts e →
      DerivesExpr place .expression ts e := fun h => .equality (.operand h)
  cases rank with
  | multiplicative => exact hequality (.operand (.operand h))
  | additive => exact hequality (.operand h)
  | relational => exact hequality h
  | equality => exact .equality h

theorem DerivesExpr.level_of_primary (h : DerivesExpr place .primary ts e) (rank : Rank) :
    DerivesExpr place rank.operand ts e ∧ DerivesExpr place (.level rank) ts e := by
  have hunary : DerivesExpr place .unary ts e := .unsigned h
  have hm : DerivesExpr place (.level .multiplicative) ts e := .operand hunary
  have ha : DerivesExpr place (.level .additive) ts e := .operand hm
  have hr : DerivesExpr place (.level .relational) ts e := .operand ha
  cases rank with
  | multiplicative => exact ⟨hunary, hm⟩
  | additive => exact ⟨hm, ha⟩
  | relational => exact ⟨ha, hr⟩
  | equality => exact ⟨hr, .operand hr⟩

theorem DerivesExpr.expression_of_primary (h : DerivesExpr place .primary ts e) :
    DerivesExpr place .expression ts e :=
  .equality (.equality_of_unary (.unsigned h))

end Grammar

def BinaryOp.rank : BinaryOp → Grammar.Rank
  | .mul | .div => .multiplicative
  | .add | .sub => .additive
  | .lt | .le => .relational
  | .eq | .ne => .equality

theorem BinaryOp.joins (op : BinaryOp) (a b : Expr) :
    Grammar.Joins op.rank op.symbol a b (.binary a.location op a b) := by
  cases op <;> constructor

open Grammar in
/-- Tokens that say what the text of an expression says derive the same tree. -/
theorem Expr.derives_lexemes (place : String → Int) {P : VarRef → Prop} {N : Int → Prop} {e : Expr}
    (h : e.All P N) {ts : List Token} (hts : ts.map Token.lexeme = e.lexemes) :
    ∃ e', DerivesExpr place .primary ts e' ∧ e.Alike e' := by
  induction e generalizing ts with
  | number l value =>
      obtain ⟨t, rest, rfl, ht, hrest⟩ := List.map_eq_cons_iff.mp hts
      obtain rfl := List.map_eq_nil_iff.mp hrest
      exact ⟨_, .number ht, .number⟩
  | var r =>
      obtain ⟨t, rest, rfl, ht, hrest⟩ := List.map_eq_cons_iff.mp hts
      obtain rfl := List.map_eq_nil_iff.mp hrest
      exact ⟨_, .name ht, .var rfl⟩
  | binary l op a b iha ihb =>
      obtain ⟨left, inner, rfl, hleft, hinner⟩ := List.map_eq_cons_iff.mp hts
      obtain ⟨as, more, rfl, has, hmore⟩ := List.map_eq_append_iff.mp hinner
      obtain ⟨t, tail, rfl, ht, htail⟩ := List.map_eq_cons_iff.mp hmore
      obtain ⟨bs, last, rfl, hbs, hlast⟩ := List.map_eq_append_iff.mp htail
      obtain ⟨right, rest, rfl, hright, hrest⟩ := List.map_eq_cons_iff.mp hlast
      obtain rfl := List.map_eq_nil_iff.mp hrest
      obtain ⟨a', ha, hsamea⟩ := iha h.1 has
      obtain ⟨b', hb, hsameb⟩ := ihb h.2 hbs
      have hjoined := DerivesExpr.operator (ha.level_of_primary op.rank).2
        (Parse.kind_of_symbol ht) (hb.level_of_primary op.rank).1 (op.joins a' b')
      have hall := DerivesExpr.parentheses (Parse.kind_of_symbol hleft)
        hjoined.expression_of_level (Parse.kind_of_symbol hright)
      exact ⟨_, by simpa using hall, .binary hsamea hsameb⟩
  | assign l r e ih =>
      obtain ⟨left, inner, rfl, hleft, hinner⟩ := List.map_eq_cons_iff.mp hts
      obtain ⟨n, more, rfl, hn, hmore⟩ := List.map_eq_cons_iff.mp hinner
      obtain ⟨t, tail, rfl, ht, htail⟩ := List.map_eq_cons_iff.mp hmore
      obtain ⟨es, last, rfl, hes, hlast⟩ := List.map_eq_append_iff.mp htail
      obtain ⟨right, rest, rfl, hright, hrest⟩ := List.map_eq_cons_iff.mp hlast
      obtain rfl := List.map_eq_nil_iff.mp hrest
      obtain ⟨e', he, hsame⟩ := ih h.2 hes
      have htarget := @DerivesTarget.name place [] _ _ (.inl rfl) hn
      have hassigned := DerivesExpr.assignment htarget (Parse.kind_of_symbol ht)
        he.expression_of_primary
      have hall := DerivesExpr.parentheses (Parse.kind_of_symbol hleft) hassigned
        (Parse.kind_of_symbol hright)
      exact ⟨.assign n.location ⟨n.location, r.name, place r.name⟩ e', by simpa using hall,
        .assign rfl hsame⟩
  | bare l => exact h.elim

/-! ## Reading the text -/

theorem Expr.parseExpression_plainText {e : Expr} (h : e.All VarRef.Written IsLiteral)
    (filename : String) :
    ∃ e', parseExpression e.plainText filename = .ok e' ∧ e.Alike e' := by
  have hscans : Scan.Scans e.plainText.toList e.lexemes [] := Expr.scans_plainText h (by simp)
  obtain ⟨ts, last, hts, hlast, htokens⟩ := hscans.tokensOf filename
  rw [String.ofList_toList] at htokens
  obtain ⟨e', hd, hsame⟩ := Expr.derives_lexemes _ h hts
  exact ⟨e', parseExpression_of_derives htokens hlast hd.expression_of_primary, hsame⟩

/-- The expressions that occur in what is read from text, with all slots deleted from their texts,
are read back as the same trees, up to slots and places. -/
theorem parseExpression_text {source filename : String} {e : Expr}
    (h : (∃ p, parseSource source filename = .ok p ∧ .expr e ∈ p.nodes) ∨
      ∃ whole, parseExpression source filename = .ok whole ∧ e ∈ whole.parts)
    (filename' : String) :
    ∃ e', parseExpression (String.ofList (Text.dropSlots e.text.toList)) filename' = .ok e' ∧
      e.Alike e' := by
  have hall : e.All VarRef.Written IsLiteral := by
    rcases h with ⟨p, hp, hmem⟩ | ⟨whole, hwhole, hmem⟩
    · exact (parseSource_written hp).nodes _ hmem
    · exact (parseExpression_written hwhole).parts e hmem
  rw [Expr.ofList_dropSlots_text hall]
  exact Expr.parseExpression_plainText hall filename'

/-- A condition with a sign, exchanged operands and assignments inside an operand. -/
def exchangedCondition : String :=
  "while (-i > (j = k = 2) * 3 - 1) i = i / 2;"

theorem parseExpression_text_exchangedCondition :
    ∃ p e, parseSource exchangedCondition = .ok p ∧ .expr e ∈ p.nodes ∧
      e.text = "((((j[rbp-16] = (k[rbp-24] = 2)) * 3) - 1) < (0 - i[rbp-8]))" ∧
      ∃ e', parseExpression "((((j = (k = 2)) * 3) - 1) < (0 - i))" = .ok e' ∧ e.Alike e' := by
  have hcheck : ((parseSource exchangedCondition).toOption.any fun p => p.nodes.any fun
      | .stmt _ => false
      | .expr e =>
        e.text == "((((j[rbp-16] = (k[rbp-24] = 2)) * 3) - 1) < (0 - i[rbp-8]))") = true := by
    decide +kernel
  obtain ⟨p, hp, hcheck⟩ := exists_ok_of_any hcheck
  obtain ⟨node, hmem, hnode⟩ := List.any_eq_true.mp hcheck
  cases node with
  | stmt s => cases hnode
  | expr e =>
      have htext := beq_iff_eq.mp hnode
      have hplain : String.ofList (Text.dropSlots
          "((((j[rbp-16] = (k[rbp-24] = 2)) * 3) - 1) < (0 - i[rbp-8]))".toList) =
          "((((j = (k = 2)) * 3) - 1) < (0 - i))" := by
        decide +kernel
      have hread := parseExpression_text (.inl ⟨p, hp, hmem⟩) "<input>"
      rw [htext, hplain] at hread
      exact ⟨p, e, hp, hmem, htext, hread⟩

end StackLang
