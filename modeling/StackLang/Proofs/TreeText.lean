import StackLang.Proofs.ExprText
import StackLang.Proofs.SlotUse

/-!
# Program trees as text

The tree that is printed for a program tells all there is to tell about it but places. The text of
an expression determines the expression, the indentation of a line tells what it belongs to, and
the variables that occur determine the table.
-/

namespace StackLang

open Location (nowhere)

/-- A run of characters of one class ends where the class does. -/
theorem run_inj {p : Char → Bool} {u v x y : List Char} (hu : ∀ c ∈ u, p c = true)
    (hv : ∀ c ∈ v, p c = true) (hx : ∀ c ∈ x.head?, p c = false)
    (hy : ∀ c ∈ y.head?, p c = false) (h : u ++ x = v ++ y) : u = v ∧ x = y := by
  have huv := congrArg (List.takeWhile p) h
  rw [Scan.takeWhile_run hu hx, Scan.takeWhile_run hv hy] at huv
  subst huv
  exact ⟨rfl, List.append_cancel_left h⟩

/-! ## Expressions -/

theorem Expr.Alike.of_common {a b e : Expr} (ha : a.Alike e) (hb : b.Alike e) : a.Alike b := by
  induction ha generalizing b with
  | number =>
      cases hb
      exact .number
  | var hr =>
      cases hb with
      | var hr' => exact .var (hr.trans hr'.symm)
  | binary _ _ iha ihb =>
      cases hb with
      | binary ha hb => exact .binary (iha ha) (ihb hb)
  | assign hr _ ih =>
      cases hb with
      | assign hr' he => exact .assign (hr.trans hr'.symm) (ih he)

/-- Without their slots, equal texts are read as one expression. -/
theorem Expr.alike_of_text {e e' : Expr} (h : e.All VarRef.Written IsLiteral)
    (h' : e'.All VarRef.Written IsLiteral) (heq : e.text = e'.text) : e.Alike e' := by
  obtain ⟨x, hx, hex⟩ := Expr.parseExpression_plainText h "<input>"
  obtain ⟨x', hx', hex'⟩ := Expr.parseExpression_plainText h' "<input>"
  rw [← Expr.ofList_dropSlots_text h, heq, Expr.ofList_dropSlots_text h', hx'] at hx
  cases hx
  exact hex.of_common hex'

theorem VarRef.unplaced_of_text {r r' : VarRef} (hname : r.name = r'.name) (h : r.Written)
    (h' : r'.Written) {rest rest' : List Char}
    (heq : r.text.toList ++ rest = r'.text.toList ++ rest') :
    r.unplaced = r'.unplaced ∧ rest = rest' := by
  obtain ⟨n, hn⟩ := Int.eq_ofNat_of_zero_le h.offset.le
  obtain ⟨m, hm⟩ := Int.eq_ofNat_of_zero_le h'.offset.le
  simp only [VarRef.toList_text, hname, hn, hm, toList_toString_nat, List.append_assoc,
    List.append_cancel_left_eq, List.singleton_append] at heq
  have hclose : ∀ cs : List Char, ∀ c ∈ (']' :: cs).head?, Char.isDigit c = false := by
    simp
  obtain ⟨hdigits, hrest⟩ := run_inj (p := Char.isDigit) (fun c hc => Text.ascii_of_mem_repr hc)
    (fun c hc => Text.ascii_of_mem_repr hc) (hclose _) (hclose _) heq
  have hnm : n = m := by
    rw [← Text.decimalValue_repr n, hdigits, Text.decimalValue_repr]
  rw [← hnm, ← hn] at hm
  exact ⟨by rw [VarRef.unplaced, VarRef.unplaced, hname, hm], (List.cons.inj hrest).2⟩

/-- Texts that start with expressions of the same shape and are equal start with the same
expression. -/
theorem Expr.Alike.unplaced_of_text {e e' : Expr} (halike : e.Alike e')
    (h : e.All VarRef.Written IsLiteral) (h' : e'.All VarRef.Written IsLiteral)
    {rest rest' : List Char} (heq : e.text.toList ++ rest = e'.text.toList ++ rest') :
    e.unplaced = e'.unplaced ∧ rest = rest' := by
  induction halike generalizing rest rest' with
  | number => exact ⟨rfl, List.append_cancel_left heq⟩
  | var hname =>
      obtain ⟨hr, hrest⟩ := VarRef.unplaced_of_text hname h h' heq
      exact ⟨congrArg Expr.var hr, hrest⟩
  | binary _ _ iha ihb =>
      simp only [Expr.text, String.toList_append, List.append_assoc,
        List.append_cancel_left_eq] at heq
      obtain ⟨ha, heq⟩ := iha h.1 h'.1 heq
      simp only [List.append_cancel_left_eq] at heq
      obtain ⟨hb, heq⟩ := ihb h.2 h'.2 heq
      exact ⟨by rw [Expr.unplaced, Expr.unplaced, ha, hb], List.append_cancel_left heq⟩
  | assign hname _ ih =>
      simp only [Expr.text, String.toList_append, List.append_assoc,
        List.append_cancel_left_eq] at heq
      obtain ⟨hr, heq⟩ := VarRef.unplaced_of_text hname h.1 h'.1 heq
      simp only [List.append_cancel_left_eq] at heq
      obtain ⟨he, heq⟩ := ih h.2 h'.2 heq
      exact ⟨by rw [Expr.unplaced, Expr.unplaced, hr, he], List.append_cancel_left heq⟩

theorem Expr.text_inj {e e' : Expr} (h : e.All VarRef.Written IsLiteral)
    (h' : e'.All VarRef.Written IsLiteral) (heq : e.text = e'.text) :
    e.unplaced = e'.unplaced := by
  have hlists : e.text.toList ++ [] = e'.text.toList ++ [] := by rw [heq]
  exact ((Expr.alike_of_text h h' heq).unplaced_of_text h h' hlists).1

/-- Neither the end of a line nor that of a loop clause. -/
def isInner (c : Char) : Bool :=
  c != '\n' && c != ';'

theorem isInner_of_isNamePart {c : Char} (h : Scan.isNamePart c = true) : isInner c = true := by
  simp only [isInner, Bool.and_eq_true, bne_iff_ne]
  constructor <;> rintro rfl <;> exact absurd h (by decide)

theorem isInner_of_mem_repr {n : Nat} {c : Char} (h : c ∈ n.repr.toList) : isInner c = true :=
  isInner_of_isNamePart (Scan.isNamePart_of_isDigit ((Scan.isNumeral_repr n).2 c h))

theorem VarRef.Written.isInner_text {r : VarRef} (h : r.Written) :
    ∀ c ∈ r.text.toList, isInner c = true := by
  obtain ⟨n, hn⟩ := Int.eq_ofNat_of_zero_le h.offset.le
  rw [r.toList_text, hn, toList_toString_nat]
  simp only [List.forall_mem_append]
  exact ⟨fun c hc => isInner_of_isNamePart (h.name.1.2 c hc), List.all_eq_true.mp (by decide),
    fun c hc => isInner_of_mem_repr hc, List.all_eq_true.mp (by decide)⟩

theorem Expr.isInner_text {e : Expr} (h : e.All VarRef.Written IsLiteral) :
    ∀ c ∈ e.text.toList, isInner c = true := by
  induction e with
  | number l value =>
      obtain ⟨n, rfl⟩ := Int.eq_ofNat_of_zero_le h.1
      rw [Expr.text, toList_toString_nat]
      exact fun c hc => isInner_of_mem_repr hc
  | var r => exact VarRef.Written.isInner_text h
  | binary l op a b iha ihb =>
      have hop : ∀ c ∈ op.spelling.toList, isInner c = true := by
        cases op <;> exact List.all_eq_true.mp (by decide)
      simp only [Expr.text, String.toList_append, List.forall_mem_append]
      exact ⟨⟨⟨⟨⟨⟨List.all_eq_true.mp (by decide), iha h.1⟩, List.all_eq_true.mp (by decide)⟩, hop⟩,
        List.all_eq_true.mp (by decide)⟩, ihb h.2⟩, List.all_eq_true.mp (by decide)⟩
  | assign l r e ih =>
      simp only [Expr.text, String.toList_append, List.forall_mem_append]
      exact ⟨⟨⟨⟨List.all_eq_true.mp (by decide), h.1.isInner_text⟩, List.all_eq_true.mp (by decide)⟩,
        ih h.2⟩, List.all_eq_true.mp (by decide)⟩
  | bare l => exact h.elim

theorem isInner_clauseText {clause : Option Expr} (h : ClauseAll VarRef.Written IsLiteral clause) :
    ∀ c ∈ (clauseText clause).toList, isInner c = true := by
  cases clause with
  | none => simp [clauseText]
  | some e => exact Expr.isInner_text h

theorem Expr.text_ne_empty {e : Expr} (h : e.All VarRef.Written IsLiteral) : e.text ≠ "" := by
  intro htext
  have hnil := congrArg String.toList htext
  cases e with
  | number l value =>
      obtain ⟨n, rfl⟩ := Int.eq_ofNat_of_zero_le h.1
      rw [Expr.text, toList_toString_nat] at hnil
      exact repr_ne_nil n hnil
  | var r => simp [Expr.text, VarRef.toList_text] at hnil
  | binary l op a b => simp [Expr.text] at hnil
  | assign l r e => simp [Expr.text] at hnil
  | bare l => exact h

theorem clauseText_inj {clause clause' : Option Expr}
    (h : ClauseAll VarRef.Written IsLiteral clause)
    (h' : ClauseAll VarRef.Written IsLiteral clause') (heq : clauseText clause = clauseText clause') :
    clause.map Expr.unplaced = clause'.map Expr.unplaced := by
  cases clause with
  | none =>
      cases clause' with
      | none => rfl
      | some e' => exact absurd heq.symm (Expr.text_ne_empty h')
  | some e =>
      cases clause' with
      | none => exact absurd heq (Expr.text_ne_empty h)
      | some e' => exact congrArg some (Expr.text_inj h h' heq)

/-! ## Lines -/

/-- The first line of the tree of a statement. -/
def Stmt.headline : Stmt → String
  | .expr _ e => "Expr: " ++ e.text
  | .ret _ e => "Return " ++ e.text
  | .ifThen _ c _ | .ifElse _ c _ _ => "If (" ++ c.text ++ ")"
  | .while_ _ c _ => "While (" ++ c.text ++ ")"
  | .for_ _ i c u _ =>
    "For (" ++ clauseText i ++ "; " ++ clauseText c ++ "; " ++ clauseText u ++ ")"
  | .block _ _ => "Block"
  | .bare _ => "<Statement>"

/-- The lines of the tree after the first. -/
def Stmt.innerTree (level : Nat) : Stmt → List String
  | .expr _ _ | .ret _ _ | .bare _ => []
  | .ifThen _ _ a => treeLine (level + 1) "Then:" :: a.tree (level + 2)
  | .ifElse _ _ a b => treeLine (level + 1) "Then:" ::
      (a.tree (level + 2) ++ treeLine (level + 1) "Else:" :: b.tree (level + 2))
  | .while_ _ _ a | .for_ _ _ _ _ a => a.tree (level + 1)
  | .block _ ss => treeOfAll (level + 1) ss

theorem Stmt.tree_eq (level : Nat) (s : Stmt) :
    s.tree level = treeLine level s.headline :: s.innerTree level := by
  cases s <;> rfl

/-- The letter that a form is told by. -/
def Stmt.initial : Stmt → Char
  | .expr _ _ => 'E'
  | .ret _ _ => 'R'
  | .ifThen _ _ _ | .ifElse _ _ _ _ => 'I'
  | .while_ _ _ _ => 'W'
  | .for_ _ _ _ _ _ => 'F'
  | .block _ _ => 'B'
  | .bare _ => '<'

theorem Stmt.head?_headline (s : Stmt) : s.headline.toList.head? = some s.initial := by
  cases s <;> simp [headline, initial]

theorem Stmt.initial_ne_space (s : Stmt) : s.initial ≠ ' ' := by
  cases s <;> simp [initial]

/-- The statement without what is nested in it. -/
def Stmt.heading : Stmt → Stmt
  | .expr _ e => .expr nowhere e.unplaced
  | .ret _ e => .ret nowhere e.unplaced
  | .ifThen _ c _ | .ifElse _ c _ _ => .ifThen nowhere c.unplaced (.bare nowhere)
  | .while_ _ c _ => .while_ nowhere c.unplaced (.bare nowhere)
  | .for_ _ i c u _ => .for_ nowhere (i.map Expr.unplaced) (c.map Expr.unplaced)
      (u.map Expr.unplaced) (.bare nowhere)
  | .block _ _ => .block nowhere []
  | .bare _ => .bare nowhere

theorem clauses_inj {i i' c c' u u' : Option Expr} (hi : ClauseAll VarRef.Written IsLiteral i)
    (hi' : ClauseAll VarRef.Written IsLiteral i') (hc : ClauseAll VarRef.Written IsLiteral c)
    (hc' : ClauseAll VarRef.Written IsLiteral c') (hu : ClauseAll VarRef.Written IsLiteral u)
    (hu' : ClauseAll VarRef.Written IsLiteral u')
    {l l' : Location} {a a' : Stmt}
    (heq : (Stmt.for_ l i c u a).headline = (Stmt.for_ l' i' c' u' a').headline) :
    i.map Expr.unplaced = i'.map Expr.unplaced ∧ c.map Expr.unplaced = c'.map Expr.unplaced ∧
      u.map Expr.unplaced = u'.map Expr.unplaced := by
  have hstop : ∀ cs : List Char, ∀ c ∈ ("; ".toList ++ cs).head?, isInner c = false := by
    simp; decide
  have hlists := congrArg String.toList heq
  simp only [Stmt.headline, String.toList_append, List.append_assoc] at hlists
  obtain ⟨hinit, hlists⟩ := run_inj (isInner_clauseText hi) (isInner_clauseText hi') (hstop _)
    (hstop _) (List.append_cancel_left hlists)
  obtain ⟨htest, hlists⟩ := run_inj (isInner_clauseText hc) (isInner_clauseText hc') (hstop _)
    (hstop _) (List.append_cancel_left hlists)
  have hupdate := List.append_cancel_right (List.append_cancel_left hlists)
  exact ⟨clauseText_inj hi hi' (String.toList_inj.mp hinit),
    clauseText_inj hc hc' (String.toList_inj.mp htest),
    clauseText_inj hu hu' (String.toList_inj.mp hupdate)⟩

theorem Stmt.heading_of_headline {s s' : Stmt} (h : s.All VarRef.Written IsLiteral)
    (h' : s'.All VarRef.Written IsLiteral) (heq : s.headline = s'.headline) :
    s.heading = s'.heading := by
  have hinitial : s.initial = s'.initial := by
    have hhead := s.head?_headline
    rw [heq, s'.head?_headline] at hhead
    exact (Option.some.inj hhead).symm
  cases s with
  | expr l e =>
      cases s'
      case expr l' e' =>
        have htext : e.text = e'.text := by simpa [headline] using heq
        exact congrArg (Stmt.expr nowhere) (Expr.text_inj h h' htext)
      all_goals cases hinitial
  | ret l e =>
      cases s'
      case ret l' e' =>
        have htext : e.text = e'.text := by simpa [headline] using heq
        exact congrArg (Stmt.ret nowhere) (Expr.text_inj h h' htext)
      all_goals cases hinitial
  | ifThen l c a | ifElse l c a b =>
      cases s'
      case ifThen l' c' a' | ifElse l' c' a' b' =>
        have htext : c.text = c'.text := by simpa [headline] using heq
        rw [heading, heading, Expr.text_inj h.1 h'.1 htext]
      all_goals cases hinitial
  | while_ l c a =>
      cases s'
      case while_ l' c' a' =>
        have htext : c.text = c'.text := by simpa [headline] using heq
        rw [heading, heading, Expr.text_inj h.1 h'.1 htext]
      all_goals cases hinitial
  | for_ l i c u a =>
      cases s'
      case for_ l' i' c' u' a' =>
        obtain ⟨hi, hc, hu⟩ := clauses_inj h.1 h'.1 h.2.1 h'.2.1 h.2.2.1 h'.2.2.1 heq
        rw [heading, heading, hi, hc, hu]
      all_goals cases hinitial
  | block l ss =>
      cases s'
      case block l' ss' => rfl
      all_goals cases hinitial
  | bare l => exact h.elim

/-! ## Indentation -/

def indentOf (line : String) : Nat :=
  (line.toList.takeWhile (· == ' ')).length

theorem toList_treeLine (level : Nat) (text : String) :
    (treeLine level text).toList = List.replicate (2 * level) ' ' ++ text.toList := by
  simp [treeLine]

theorem indentOf_treeLine (level : Nat) {text : String} (h : text.toList.head? ≠ some ' ') :
    indentOf (treeLine level text) = 2 * level := by
  rw [indentOf, toList_treeLine, Scan.takeWhile_run, List.length_replicate]
  · intro c hc
    simpa using (List.mem_replicate.mp hc).2
  · intro c hc
    simp only [beq_eq_false_iff_ne]
    rintro rfl
    exact h hc

theorem treeLine_inj {level : Nat} {text text' : String}
    (h : treeLine level text = treeLine level text') : text = text' := by
  have hlists := congrArg String.toList h
  rw [toList_treeLine, toList_treeLine] at hlists
  exact String.toList_inj.mp (List.append_cancel_left hlists)

/-- The lines start out less indented than `n`, unless there are none. -/
def Shallow (n : Nat) (lines : List String) : Prop :=
  ∀ line ∈ lines.head?, indentOf line < n

theorem Shallow.mono {m n : Nat} {lines : List String} (h : Shallow m lines) (hmn : m ≤ n) :
    Shallow n lines :=
  fun line hline => (h line hline).trans_le hmn

theorem shallow_treeLine {n level : Nat} {text : String} (h : text.toList.head? ≠ some ' ')
    (hn : 2 * level < n) (lines : List String) : Shallow n (treeLine level text :: lines) := by
  intro line hline
  cases hline
  rwa [indentOf_treeLine level h]

theorem Stmt.head?_headline_ne (s : Stmt) : s.headline.toList.head? ≠ some ' ' := by
  rw [s.head?_headline]
  exact fun h => s.initial_ne_space (Option.some.inj h)

theorem shallow_treeOfAll {n level : Nat} (hn : 2 * level < n) (ss : List Stmt)
    {lines : List String} (h : Shallow n lines) : Shallow n (treeOfAll level ss ++ lines) := by
  cases ss with
  | nil => exact h
  | cons s ss =>
      rw [treeOfAll, s.tree_eq]
      exact shallow_treeLine s.head?_headline_ne hn _

/-! ## Trees -/

theorem Stmt.split_tree {s s' : Stmt} {level : Nat} {lines lines' : List String}
    (h : s.All VarRef.Written IsLiteral) (h' : s'.All VarRef.Written IsLiteral)
    (heq : s.tree level ++ lines = s'.tree level ++ lines') :
    s.heading = s'.heading ∧ s.innerTree level ++ lines = s'.innerTree level ++ lines' := by
  rw [s.tree_eq, s'.tree_eq, List.cons_append, List.cons_append, List.cons.injEq] at heq
  exact ⟨Stmt.heading_of_headline h h' (treeLine_inj heq.1), heq.2⟩

/-- The line that opens the second branch is too far in to follow the statement. -/
theorem not_shallow_else {level : Nat} {lines : List String} :
    ¬ Shallow (2 * level + 1) (treeLine (level + 1) "Else:" :: lines) := by
  intro h
  have hindent := h _ rfl
  rw [indentOf_treeLine _ (by decide)] at hindent
  omega

theorem not_shallow_treeOfAll {level : Nat} {s : Stmt} {ss : List Stmt} {lines : List String} :
    ¬ Shallow (2 * level) (treeOfAll level (s :: ss) ++ lines) := by
  intro h
  rw [treeOfAll, s.tree_eq] at h
  have hindent := h _ rfl
  rw [indentOf_treeLine _ s.head?_headline_ne] at hindent
  omega

mutual

/-- Lines that start with the tree of a statement tell the statement and where its tree ends, as
long as no line follows that could belong to it. -/
theorem Stmt.tree_inj : ∀ {s s' : Stmt} {level : Nat} {lines lines' : List String},
    s.All VarRef.Written IsLiteral → s'.All VarRef.Written IsLiteral →
    Shallow (2 * level + 1) lines → Shallow (2 * level + 1) lines' →
    s.tree level ++ lines = s'.tree level ++ lines' →
    s.unplaced = s'.unplaced ∧ lines = lines'
  | .expr _ _, s', _, _, _, h, h', _, _, heq => by
      obtain ⟨hheading, hinner⟩ := Stmt.split_tree h h' heq
      cases s'
      case expr l' e' => exact ⟨hheading, hinner⟩
      all_goals cases hheading
  | .ret _ _, s', _, _, _, h, h', _, _, heq => by
      obtain ⟨hheading, hinner⟩ := Stmt.split_tree h h' heq
      cases s'
      case ret l' e' => exact ⟨hheading, hinner⟩
      all_goals cases hheading
  | .ifThen _ _ a, s', level, _, _, h, h', hl, hl', heq => by
      obtain ⟨hheading, hinner⟩ := Stmt.split_tree h h' heq
      cases s'
      case ifThen l' c' a' =>
        obtain ⟨ha, hlines⟩ := Stmt.tree_inj h.2 h'.2 (hl.mono (by omega)) (hl'.mono (by omega))
          (List.cons.inj hinner).2
        exact ⟨by rw [Stmt.unplaced, Stmt.unplaced, (Stmt.ifThen.inj hheading).2.1, ha], hlines⟩
      case ifElse l' c' a' b' =>
        simp only [Stmt.innerTree, List.cons_append, List.append_assoc] at hinner
        obtain ⟨-, rfl⟩ := Stmt.tree_inj h.2 h'.2.1 (hl.mono (by omega))
          (shallow_treeLine (by decide) (by omega) _) (List.cons.inj hinner).2
        exact absurd hl not_shallow_else
      all_goals cases hheading
  | .ifElse _ _ a b, s', level, _, _, h, h', hl, hl', heq => by
      obtain ⟨hheading, hinner⟩ := Stmt.split_tree h h' heq
      cases s'
      case ifThen l' c' a' =>
        simp only [Stmt.innerTree, List.cons_append, List.append_assoc] at hinner
        obtain ⟨-, rfl⟩ := Stmt.tree_inj h.2.1 h'.2 (shallow_treeLine (by decide) (by omega) _)
          (hl'.mono (by omega)) (List.cons.inj hinner).2
        exact absurd hl' not_shallow_else
      case ifElse l' c' a' b' =>
        simp only [Stmt.innerTree, List.cons_append, List.append_assoc] at hinner
        obtain ⟨ha, hrest⟩ := Stmt.tree_inj h.2.1 h'.2.1
          (shallow_treeLine (by decide) (by omega) _) (shallow_treeLine (by decide) (by omega) _)
          (List.cons.inj hinner).2
        obtain ⟨hb, hlines⟩ := Stmt.tree_inj h.2.2 h'.2.2 (hl.mono (by omega))
          (hl'.mono (by omega)) (List.cons.inj hrest).2
        exact ⟨by rw [Stmt.unplaced, Stmt.unplaced, (Stmt.ifThen.inj hheading).2.1, ha, hb],
          hlines⟩
      all_goals cases hheading
  | .while_ _ _ a, s', _, _, _, h, h', hl, hl', heq => by
      obtain ⟨hheading, hinner⟩ := Stmt.split_tree h h' heq
      cases s'
      case while_ l' c' a' =>
        obtain ⟨ha, hlines⟩ := Stmt.tree_inj h.2 h'.2 (hl.mono (by omega)) (hl'.mono (by omega))
          hinner
        exact ⟨by rw [Stmt.unplaced, Stmt.unplaced, (Stmt.while_.inj hheading).2.1, ha], hlines⟩
      all_goals cases hheading
  | .for_ _ _ _ _ a, s', _, _, _, h, h', hl, hl', heq => by
      obtain ⟨hheading, hinner⟩ := Stmt.split_tree h h' heq
      cases s'
      case for_ l' i' c' u' a' =>
        obtain ⟨ha, hlines⟩ := Stmt.tree_inj h.2.2.2 h'.2.2.2 (hl.mono (by omega))
          (hl'.mono (by omega)) hinner
        obtain ⟨-, hi, hc, hu, -⟩ := Stmt.for_.inj hheading
        exact ⟨by rw [Stmt.unplaced, Stmt.unplaced, hi, hc, hu, ha], hlines⟩
      all_goals cases hheading
  | .block _ ss, s', _, _, _, h, h', hl, hl', heq => by
      obtain ⟨hheading, hinner⟩ := Stmt.split_tree h h' heq
      cases s'
      case block l' ss' =>
        obtain ⟨hss, hlines⟩ := treeOfAll_inj h h' (hl.mono (by omega)) (hl'.mono (by omega))
          hinner
        exact ⟨congrArg (Stmt.block nowhere) hss, hlines⟩
      all_goals cases hheading
  | .bare _, _, _, _, _, h, _, _, _, _ => h.elim

theorem treeOfAll_inj : ∀ {ss ss' : List Stmt} {level : Nat} {lines lines' : List String},
    AllStmts VarRef.Written IsLiteral ss → AllStmts VarRef.Written IsLiteral ss' →
    Shallow (2 * level) lines → Shallow (2 * level) lines' →
    treeOfAll level ss ++ lines = treeOfAll level ss' ++ lines' →
    unplacedAll ss = unplacedAll ss' ∧ lines = lines'
  | [], [], _, _, _, _, _, _, _, heq => ⟨rfl, heq⟩
  | [], _ :: _, _, _, _, _, _, hl, _, heq => by
      rw [treeOfAll, List.nil_append] at heq
      exact absurd (heq ▸ hl) not_shallow_treeOfAll
  | _ :: _, [], _, _, _, _, _, _, hl', heq => by
      rw [treeOfAll, List.nil_append] at heq
      exact absurd (heq ▸ hl') not_shallow_treeOfAll
  | s :: ss, s' :: ss', _, _, _, h, h', hl, hl', heq => by
      rw [treeOfAll, treeOfAll, List.append_assoc, List.append_assoc] at heq
      obtain ⟨hs, heq⟩ := Stmt.tree_inj h.1 h'.1
        (shallow_treeOfAll (by omega) ss (hl.mono (by omega)))
        (shallow_treeOfAll (by omega) ss' (hl'.mono (by omega))) heq
      obtain ⟨hss, hlines⟩ := treeOfAll_inj h.2 h'.2 hl hl' heq
      exact ⟨by rw [unplacedAll, unplacedAll, hs, hss], hlines⟩

end

/-! ## Line feeds -/

theorem newline_not_mem {cs : List Char} (h : ∀ c ∈ cs, isInner c = true) : '\n' ∉ cs :=
  fun hmem => absurd (h '\n' hmem) (by decide)

theorem newline_not_mem_treeLine {text : String} (h : '\n' ∉ text.toList) (level : Nat) :
    '\n' ∉ (treeLine level text).toList := by
  rw [toList_treeLine, List.mem_append, not_or]
  exact ⟨fun hmem => absurd (List.mem_replicate.mp hmem).2 (by decide), h⟩

theorem Stmt.newline_not_mem_headline {s : Stmt} (h : s.All VarRef.Written IsLiteral) :
    '\n' ∉ s.headline.toList := by
  cases s with
  | expr l e | ret l e =>
      have he := newline_not_mem (Expr.isInner_text h)
      simp [headline, he]
  | ifThen l c a | ifElse l c a b | while_ l c a =>
      have hc := newline_not_mem (Expr.isInner_text h.1)
      simp [headline, hc]
  | for_ l i c u a =>
      have hi := newline_not_mem (isInner_clauseText h.1)
      have hc := newline_not_mem (isInner_clauseText h.2.1)
      have hu := newline_not_mem (isInner_clauseText h.2.2.1)
      simp [headline, hi, hc, hu]
  | block l ss => simp [headline]
  | bare l => exact h.elim

theorem Stmt.newline_not_mem_of_inner {s : Stmt} (h : s.All VarRef.Written IsLiteral) {level : Nat}
    (hinner : ∀ line ∈ s.innerTree level, '\n' ∉ line.toList) :
    ∀ line ∈ s.tree level, '\n' ∉ line.toList := by
  rw [s.tree_eq]
  exact List.forall_mem_cons.mpr
    ⟨newline_not_mem_treeLine (Stmt.newline_not_mem_headline h) level, hinner⟩

mutual

theorem Stmt.newline_not_mem_tree : ∀ {s : Stmt} (level : Nat),
    s.All VarRef.Written IsLiteral → ∀ line ∈ s.tree level, '\n' ∉ line.toList
  | .expr _ _, _, h | .ret _ _, _, h => Stmt.newline_not_mem_of_inner h (by simp [Stmt.innerTree])
  | .ifThen _ _ a, level, h => Stmt.newline_not_mem_of_inner h <| List.forall_mem_cons.mpr
      ⟨newline_not_mem_treeLine (by decide) _, Stmt.newline_not_mem_tree _ h.2⟩
  | .ifElse _ _ a b, level, h => Stmt.newline_not_mem_of_inner h <| List.forall_mem_cons.mpr
      ⟨newline_not_mem_treeLine (by decide) _, List.forall_mem_append.mpr
        ⟨Stmt.newline_not_mem_tree _ h.2.1, List.forall_mem_cons.mpr
          ⟨newline_not_mem_treeLine (by decide) _, Stmt.newline_not_mem_tree _ h.2.2⟩⟩⟩
  | .while_ _ _ a, _, h => Stmt.newline_not_mem_of_inner h (Stmt.newline_not_mem_tree _ h.2)
  | .for_ _ _ _ _ a, _, h =>
      Stmt.newline_not_mem_of_inner h (Stmt.newline_not_mem_tree _ h.2.2.2)
  | .block _ ss, _, h => Stmt.newline_not_mem_of_inner h (newline_not_mem_treeOfAll _ h)
  | .bare _, _, h => h.elim

theorem newline_not_mem_treeOfAll : ∀ {ss : List Stmt} (level : Nat),
    AllStmts VarRef.Written IsLiteral ss → ∀ line ∈ treeOfAll level ss, '\n' ∉ line.toList
  | [], _, _ => by simp [treeOfAll]
  | s :: ss, level, h => List.forall_mem_append.mpr
      ⟨Stmt.newline_not_mem_tree level h.1, newline_not_mem_treeOfAll level h.2⟩

end

/-! ## Programs -/

/-- The first line of the tree of a program. -/
def Program.title (p : Program) : String :=
  let noun := if p.slots.size = 1 then "variable" else "variables"
  s!"Program ({p.slots.size} {noun})"

theorem Program.newline_not_mem_title (p : Program) : '\n' ∉ p.title.toList := by
  have hsize : '\n' ∉ (toString p.slots.size).toList :=
    newline_not_mem fun c hc => isInner_of_mem_repr hc
  have hnoun : '\n' ∉ (if p.slots.size = 1 then "variable" else "variables").toList := by
    split <;> decide
  simp only [title, String.toList_append, List.mem_append, not_or]
  exact ⟨⟨⟨⟨by decide, hsize⟩, by decide⟩, hnoun⟩, by decide⟩

theorem Program.splitOn_tree {p : Program} (h : AllStmts VarRef.Written IsLiteral p.statements) :
    p.tree.toList.splitOn '\n' = (p.title :: treeOfAll 1 p.statements).map String.toList := by
  have htree : p.tree = "\n".intercalate (p.title :: treeOfAll 1 p.statements) := rfl
  rw [htree, String.toList_intercalate]
  refine List.splitOn_intercalate '\n' ?_ (by simp)
  exact List.forall_mem_map.mpr
    (List.forall_mem_cons.mpr ⟨p.newline_not_mem_title, newline_not_mem_treeOfAll 1 h⟩)

/-- Programs whose trees are printed the same are the same up to places. -/
theorem Program.unplacedAll_of_tree {p q : Program}
    (hp : AllStmts VarRef.Written IsLiteral p.statements)
    (hq : AllStmts VarRef.Written IsLiteral q.statements) (h : p.tree = q.tree) :
    unplacedAll p.statements = unplacedAll q.statements := by
  have hlines : (p.title :: treeOfAll 1 p.statements).map String.toList =
      (q.title :: treeOfAll 1 q.statements).map String.toList := by
    rw [← Program.splitOn_tree hp, h, Program.splitOn_tree hq]
  have hinjective : Function.Injective String.toList := fun _ _ => String.toList_inj.mp
  have htrees := (List.cons.inj (List.map_injective_iff.mpr hinjective hlines)).2
  have hnone : ∀ n, Shallow n [] := by simp [Shallow]
  have hends : treeOfAll 1 p.statements ++ [] = treeOfAll 1 q.statements ++ [] := by rw [htrees]
  exact (treeOfAll_inj hp hq (hnone _) (hnone _) hends).1

/-- Programs that are the same up to places are printed the same if they have as many slots. -/
theorem Program.tree_of_unplacedAll {p q : Program}
    (h : unplacedAll p.statements = unplacedAll q.statements) (hslots : p.slots = q.slots) :
    p.tree = q.tree := by
  have htrees : treeOfAll 1 p.statements = treeOfAll 1 q.statements := by
    rw [← treeOfAll_unplacedAll, h, treeOfAll_unplacedAll]
  unfold Program.tree
  rw [htrees, hslots]

/-- A program that was read has a routine whenever the frame covers its table. -/
theorem Program.Sound.offences_eq_nil_iff {p : Program} (h : p.Sound) {frame : Int} :
    p.offences frame = [] ↔ ∀ slot ∈ p.slots.slots, slot.offset ≤ frame := by
  rw [Program.offences_eq_nil_iff]
  refine ⟨And.left, fun hslots => ⟨hslots, h.statements.mono (fun r hr => ?_) fun _ _ => trivial⟩⟩
  have hslot := SlotTable.mem_slots_of_find? hr
  exact ⟨(h.sequential.offset_mem hslot).1, hslots _ hslot⟩

theorem toOption_generate (p : Program) (o : RoutineOptions) :
    (generate p o).toOption = (p.routine o).toOption := by
  unfold generate
  cases p.routine o <;> rfl

theorem toOption_firstOr {α : Type} (faults : List GenerationFault) (a : α) :
    (firstOr faults a).toOption = if faults = [] then some a else none := by
  cases faults <;> rfl

theorem Program.SameOutline.toOption_routine {p q : Program} (h : p.SameOutline q) (hp : p.Sound)
    (hq : q.Sound) (hslots : p.slots = q.slots) (o : RoutineOptions) :
    (p.routine o).toOption = (q.routine o).toOption := by
  cases hframe : p.slots.frameSize? o.alignment with
  | none =>
      have hnone : q.slots.frameSize? o.alignment = none := hslots ▸ hframe
      simp [Program.routine, Generator.generate, hframe, hnone]
  | some frame =>
      have hiff : p.offences frame = [] ↔ q.offences frame = [] := by
        rw [hp.offences_eq_nil_iff, hq.offences_eq_nil_iff, hslots]
      rw [p.routine_eq hframe, q.routine_eq (hslots ▸ hframe), h.code, h.labelCountAll,
        toOption_firstOr, toOption_firstOr]
      simp only [hiff]

/-- Two programs that are written in different ways. -/
def nestedElse : String × String :=
  ("if (a) if (b) x = 1; else x = -2;", "if(a)\n  if(b) +(x) = 1;\n  else /* 0 */ x = (0-2);")

def nestedElseTree : String :=
  "Program (3 variables)\n  If (a[rbp-8])\n    Then:\n      If (b[rbp-16])\n" ++
    "        Then:\n          Expr: (x[rbp-24] = 1)\n" ++
    "        Else:\n          Expr: (x[rbp-24] = (0 - 2))"

end StackLang
