import StackLang.Proofs.ListingRead

/-!
# Labels of routines

The labels of a routine are distinct, and every jump of it goes to one of them. The statements use
the label indices from the one they are given on, and no index twice.
-/

namespace StackLang

open Text

/-- The labels that carry an index. -/
inductive LabelKind where
  | otherwise
  | start
  | finish
deriving DecidableEq

namespace LabelKind

def text : LabelKind → Nat → String
  | .otherwise => elseLabel
  | .start => beginLabel
  | .finish => endLabel

def stem : LabelKind → String
  | .otherwise => ".Lelse"
  | .start => ".Lbegin"
  | .finish => ".Lend"

theorem text_eq (k : LabelKind) (n : Nat) : k.text n = k.stem ++ n.repr := by
  cases k <;> simp [text, stem, elseLabel, beginLabel, endLabel] <;> rfl

theorem take_text (k : LabelKind) (n : Nat) :
    (k.text n).toList.take 4 = k.stem.toList.take 4 := by
  rw [text_eq, String.toList_append, List.take_append_of_le_length]
  cases k <;> decide

/-- Labels of different kinds or with different indices differ. -/
theorem text_inj {k k' : LabelKind} {n n' : Nat} (h : k.text n = k'.text n') :
    k = k' ∧ n = n' := by
  have hstem := take_text k n
  rw [h, take_text] at hstem
  have hkind : k = k' := by
    revert hstem
    cases k <;> cases k' <;> decide
  subst hkind
  rw [text_eq, text_eq, String.append_right_inj] at h
  refine ⟨rfl, ?_⟩
  rw [← decimalValue_repr n, h, decimalValue_repr]

theorem text_ne_returnLabel (k : LabelKind) (n : Nat) : k.text n ≠ returnLabel := by
  intro h
  have hstem := take_text k n
  rw [h] at hstem
  revert hstem
  cases k <;> decide

theorem isLabelName_text (k : LabelKind) (n : Nat) :
    Listing.isLabelName (k.text n).toList = true := by
  have hdigit : n.repr.toList.all Listing.isLabelPart = true := by
    rw [List.all_eq_true]
    intro c hc
    exact isLabelPart_of_isDigit (ascii_of_mem_repr hc)
  have hstem : Listing.isLabelName k.stem.toList = true := by
    cases k <;> decide
  rw [text_eq, String.toList_append]
  cases hk : k.stem.toList with
  | nil => rw [hk] at hstem; exact absurd hstem (by decide)
  | cons c cs =>
      rw [hk, Listing.isLabelName, Bool.and_eq_true] at hstem
      rw [List.cons_append, Listing.isLabelName, List.all_append, hstem.1, hstem.2, hdigit]
      rfl

end LabelKind

/-! ## Jumps -/

/-- The labels that some code jumps to. -/
def targetsOf (code : List Emission) : List String :=
  (instrsOf code).filterMap Instr.target?

@[simp] theorem targetsOf_append (a b : List Emission) :
    targetsOf (a ++ b) = targetsOf a ++ targetsOf b := by
  simp [targetsOf]

@[simp] theorem targetsOf_nil : targetsOf [] = [] := rfl

@[simp] theorem targetsOf_label (name : String) (rest : List Emission) :
    targetsOf (Emission.label name :: rest) = targetsOf rest := rfl

@[simp] theorem targetsOf_remark (comments : Bool) (text : String) :
    targetsOf (remark comments text) = [] := by
  cases comments <;> rfl

theorem targetsOf_instr (d : Nat) (m : Mnemonic) (ops : List Operand) (rest : List Emission) :
    targetsOf (Emission.instr d m ops :: rest) =
      (Instr.mk m ops).target?.toList ++ targetsOf rest := by
  unfold targetsOf
  rw [instrsOf_instr]
  cases h : (Instr.mk m ops).target? <;> simp [h]

@[simp] theorem targetsOf_jump (d : Nat) (m : Mnemonic) (name : String) (rest : List Emission) :
    targetsOf (Emission.instr d m [.label name] :: rest) = name :: targetsOf rest := rfl

/-- Code without labels and jumps. -/
def Straight (code : List Emission) : Prop :=
  labelsOf code = [] ∧ targetsOf code = []

theorem Straight.append {a b : List Emission} (ha : Straight a) (hb : Straight b) :
    Straight (a ++ b) := by
  simp [Straight, ha.1, ha.2, hb.1, hb.2]

theorem BinaryOp.straight_code (op : BinaryOp) (d : Nat) : Straight (op.code d) := by
  cases op <;> exact ⟨rfl, rfl⟩

theorem numberCode_straight (value : Int) (d : Nat) : Straight (numberCode value d) := by
  unfold numberCode
  split <;> exact ⟨rfl, rfl⟩

theorem Expr.straight_code (e : Expr) (d : Nat) : Straight (e.code d) := by
  induction e generalizing d with
  | number l value => exact numberCode_straight value d
  | var r => exact ⟨rfl, rfl⟩
  | binary l op a b iha ihb =>
      exact (iha d).append ((ihb (d + 1)).append (Straight.append ⟨rfl, rfl⟩
        ((op.straight_code d).append ⟨rfl, rfl⟩)))
  | assign l r e ih =>
      exact Straight.append ⟨rfl, rfl⟩ ((ih (d + 1)).append ⟨rfl, rfl⟩)
  | bare l => exact ⟨rfl, rfl⟩

@[simp] theorem labelsOf_conditionCode (e : Expr) (target : String) :
    labelsOf (conditionCode e target) = [] := by
  simp [conditionCode, (e.straight_code 0).1]

@[simp] theorem targetsOf_conditionCode (e : Expr) (target : String) :
    targetsOf (conditionCode e target) = [target] := by
  simp [conditionCode, (e.straight_code 0).2, targetsOf_instr, Instr.target?]

theorem discardedCode_straight (e : Expr) : Straight (discardedCode e) :=
  (e.straight_code 0).append ⟨rfl, rfl⟩

/-! ## Statements -/

/-- The labels of the code have indices from `lo` on and below `hi`, none has two places, and
every jump goes to one of them or to the end. -/
structure Numbered (lo hi : Nat) (code : List Emission) : Prop where
  distinct : (labelsOf code).Nodup
  within : ∀ name ∈ labelsOf code, ∃ (k : LabelKind) (n : Nat), lo ≤ n ∧ n < hi ∧ name = k.text n
  target : ∀ name ∈ targetsOf code, name = returnLabel ∨ name ∈ labelsOf code

namespace Numbered

variable {lo mid hi n : Nat} {a b : List Emission}

theorem of_straight (h : Straight a) (n : Nat) : Numbered n n a where
  distinct := by simp [h.1]
  within := by simp [h.1]
  target := by simp [h.2]

theorem not_mem (h : Numbered lo hi a) (hn : n < lo ∨ hi ≤ n) (k : LabelKind) :
    k.text n ∉ labelsOf a := by
  intro hmem
  obtain ⟨k', n', hlo, hhi, heq⟩ := h.within _ hmem
  have hindex := (LabelKind.text_inj heq).2
  omega

theorem disjoint (ha : Numbered lo mid a) (hb : Numbered mid hi b) :
    (labelsOf a).Disjoint (labelsOf b) := by
  intro name hleft hright
  obtain ⟨k, n, hlo, hmid, rfl⟩ := ha.within name hleft
  exact hb.not_mem (Or.inl hmid) k hright

theorem append (ha : Numbered lo mid a) (hb : Numbered mid hi b) (hlo : lo ≤ mid)
    (hhi : mid ≤ hi) : Numbered lo hi (a ++ b) where
  distinct := by
    rw [labelsOf_append]
    exact List.Nodup.append ha.distinct hb.distinct (ha.disjoint hb)
  within := by
    intro name hname
    rw [labelsOf_append] at hname
    rcases List.mem_append.mp hname with hname | hname
    · obtain ⟨k, n, h1, h2, rfl⟩ := ha.within name hname
      exact ⟨k, n, h1, by omega, rfl⟩
    · obtain ⟨k, n, h1, h2, rfl⟩ := hb.within name hname
      exact ⟨k, n, by omega, h2, rfl⟩
  target := by
    intro name hname
    rw [targetsOf_append] at hname
    rw [labelsOf_append, List.mem_append]
    rcases List.mem_append.mp hname with hname | hname
    · rcases ha.target name hname with h | h
      · exact Or.inl h
      · exact Or.inr (Or.inl h)
    · rcases hb.target name hname with h | h
      · exact Or.inl h
      · exact Or.inr (Or.inr h)

/-- Code that puts labels of its own index around and between bodies that use the later ones. -/
theorem around (h : Numbered (n + 1) hi a) (hn : n < hi) {code : List Emission}
    (kinds : List LabelKind) (hkinds : kinds.Nodup)
    (hlabels : (labelsOf code).Perm (kinds.map (·.text n) ++ labelsOf a))
    (htargets : ∀ name ∈ targetsOf code, name ∈ targetsOf a ∨ ∃ k ∈ kinds, name = k.text n) :
    Numbered n hi code where
  distinct := by
    rw [hlabels.nodup_iff]
    refine List.Nodup.append (hkinds.map_on fun k _ k' _ heq => ?_) h.distinct ?_
    · exact (LabelKind.text_inj heq).1
    · intro name hown hbody
      obtain ⟨k, -, rfl⟩ := List.mem_map.mp hown
      exact h.not_mem (Or.inl (by omega)) k hbody
  within := by
    intro name hname
    rcases List.mem_append.mp (hlabels.mem_iff.mp hname) with hown | hbody
    · obtain ⟨k, -, rfl⟩ := List.mem_map.mp hown
      exact ⟨k, n, le_refl n, hn, rfl⟩
    · obtain ⟨k, m, hlo, hhi, rfl⟩ := h.within name hbody
      exact ⟨k, m, by omega, hhi, rfl⟩
  target := by
    intro name hname
    rw [hlabels.mem_iff, List.mem_append]
    rcases htargets name hname with hbody | ⟨k, hk, rfl⟩
    · rcases h.target name hbody with hreturn | hlabel
      · exact Or.inl hreturn
      · exact Or.inr (Or.inr hlabel)
    · exact Or.inr (Or.inl (List.mem_map_of_mem hk))

end Numbered

theorem clauseCode_straight {clause : Option Expr} {body : Expr → List Emission}
    (h : ∀ e, Straight (body e)) : Straight (clauseCode clause body) := by
  cases clause with
  | none => exact ⟨rfl, rfl⟩
  | some e => exact h e

theorem remark_straight (comments : Bool) (text : String) : Straight (remark comments text) := by
  cases comments <;> exact ⟨rfl, rfl⟩

theorem loopCode_numbered {test update : Option Expr} {testRemark updateRemark body : List Emission}
    {n hi : Nat} (hbody : Numbered (n + 1) hi body) (hn : n < hi) (ht : Straight testRemark)
    (hu : Straight updateRemark) :
    Numbered n hi (loopCode test testRemark update updateRemark n body) := by
  have hupdate : Straight (clauseCode update fun e => updateRemark ++ discardedCode e) :=
    clauseCode_straight fun e => hu.append (discardedCode_straight e)
  refine hbody.around hn [.start, .finish] (by decide) ?_ fun name hname => ?_
  · have htest : labelsOf (clauseCode test fun e =>
        testRemark ++ conditionCode e (endLabel n)) = [] := by
      cases test <;> simp [clauseCode, ht.1]
    rw [List.perm_iff_count]
    intro name
    simp [loopCode, htest, hupdate.1, LabelKind.text, List.count_cons]
  · have htest : ∀ name ∈ targetsOf (clauseCode test fun e =>
        testRemark ++ conditionCode e (endLabel n)), name = endLabel n := by
      cases test <;> simp [clauseCode, ht.2]
    simp only [loopCode, targetsOf_label, targetsOf_append, hupdate.2, targetsOf_jump,
      targetsOf_nil, List.nil_append, List.mem_append, List.mem_singleton] at hname
    rcases hname with hname | hname | hname
    · exact Or.inr ⟨.finish, by simp, htest name hname⟩
    · exact Or.inl hname
    · exact Or.inr ⟨.start, by simp, hname⟩

mutual

/-- The labels of a statement are numbered from the index it is given on. -/
theorem Stmt.numbered_code (comments : Bool) :
    ∀ (s : Stmt) (n : Nat), Numbered n (n + s.labelCount) (s.code comments n)
  | .expr _ e, n => .of_straight ((e.straight_code 0).append ⟨rfl, rfl⟩) n
  | .ret l e, n => by
      have hlabels : labelsOf ((Stmt.ret l e).code comments n) = [] := by
        simp [Stmt.code, (e.straight_code 0).1]
      have htargets : targetsOf ((Stmt.ret l e).code comments n) = [returnLabel] := by
        simp [Stmt.code, (e.straight_code 0).2, targetsOf_instr, Instr.target?]
      exact ⟨by simp [hlabels], by simp [hlabels], by simp [htargets]⟩
  | .ifThen _ c a, n => by
      have ha := Stmt.numbered_code comments a (n + 1)
      rw [Stmt.labelCount, Nat.add_comm a.labelCount, ← Nat.add_assoc]
      refine ha.around (by omega) [.finish] (by decide) ?_ fun name hname => ?_
      · rw [List.perm_iff_count]
        intro name
        simp [Stmt.code, LabelKind.text, List.count_cons]
      · simp only [Stmt.code, targetsOf_append, targetsOf_remark, targetsOf_conditionCode,
          targetsOf_label, targetsOf_nil, List.nil_append, List.append_nil, List.mem_append,
          List.mem_singleton] at hname
        rcases hname with hname | hname
        · exact Or.inr ⟨.finish, by simp, hname⟩
        · exact Or.inl hname
  | .ifElse l c a b, n => by
      have ha := Stmt.numbered_code comments a (n + 1)
      have hb := Stmt.numbered_code comments b (n + 1 + a.labelCount)
      have hab := ha.append hb (by omega) (by omega)
      rw [show n + (Stmt.ifElse l c a b).labelCount = n + 1 + a.labelCount + b.labelCount by
        rw [Stmt.labelCount]; omega]
      refine hab.around (by omega) [.otherwise, .finish] (by decide) ?_ fun name hname => ?_
      · rw [List.perm_iff_count]
        intro name
        simp [Stmt.code, LabelKind.text, List.count_cons]
        omega
      · simp only [Stmt.code, targetsOf_append, targetsOf_remark, targetsOf_conditionCode,
          targetsOf_jump, targetsOf_label, targetsOf_nil, List.nil_append, List.append_nil,
          List.mem_append, List.mem_cons, List.not_mem_nil, or_false] at hname
        rw [targetsOf_append, List.mem_append]
        rcases hname with hname | hname | hname | hname
        · exact Or.inr ⟨.otherwise, by simp, hname⟩
        · exact Or.inl (Or.inl hname)
        · exact Or.inr ⟨.finish, by simp, hname⟩
        · exact Or.inl (Or.inr hname)
  | .while_ _ c a, n => by
      have ha := Stmt.numbered_code comments a (n + 1)
      rw [Stmt.labelCount, Nat.add_comm a.labelCount, ← Nat.add_assoc]
      exact loopCode_numbered ha (by omega) (remark_straight _ _) ⟨rfl, rfl⟩
  | .for_ _ i c u a, n => by
      have ha := Stmt.numbered_code comments a (n + 1)
      have hinit : Straight (clauseCode i fun e => remark comments "for init" ++ discardedCode e) :=
        clauseCode_straight fun e => (remark_straight _ _).append (discardedCode_straight e)
      rw [Stmt.labelCount, Nat.add_comm a.labelCount, ← Nat.add_assoc]
      exact (Numbered.of_straight hinit n).append
        (loopCode_numbered ha (by omega) (remark_straight _ _) (remark_straight _ _))
        (le_refl n) (by omega)
  | .block _ ss, n => codeAll_numbered comments ss n
  | .bare _, n => .of_straight ⟨rfl, rfl⟩ n

theorem codeAll_numbered (comments : Bool) :
    ∀ (ss : List Stmt) (n : Nat), Numbered n (n + labelCountAll ss) (codeAll comments ss n)
  | [], n => .of_straight ⟨rfl, rfl⟩ n
  | s :: ss, n => by
      have hs := Stmt.numbered_code comments s n
      have hss := codeAll_numbered comments ss (n + s.labelCount)
      rw [labelCountAll, ← Nat.add_assoc]
      exact hs.append hss (by omega) (by omega)

end

/-! ## Routines -/

/-- A name that a routine can have: a label that the generator does not use itself. -/
structure EntryName (name : String) : Prop where
  legal : Listing.isLabelName name.toList = true
  ne_return : name ≠ returnLabel
  ne_else : ∀ n, name ≠ elseLabel n
  ne_begin : ∀ n, name ≠ beginLabel n
  ne_end : ∀ n, name ≠ endLabel n

theorem EntryName.ne_text {name : String} (h : EntryName name) (k : LabelKind) (n : Nat) :
    name ≠ k.text n := by
  cases k with
  | otherwise => exact h.ne_else n
  | start => exact h.ne_begin n
  | finish => exact h.ne_end n

/-- The labels of the generator all start with a period. -/
theorem EntryName.of_head {name : String} (h : Listing.isLabelName name.toList = true)
    (hdot : name.toList.head? ≠ some '.') : EntryName name := by
  have hkind (k : LabelKind) (n : Nat) : name ≠ k.text n := by
    intro heq
    have hhead := congrArg List.head? (LabelKind.take_text k n)
    rw [← heq] at hhead
    refine hdot (Eq.trans ?_ (hhead.trans ?_))
    · cases name.toList <;> rfl
    · cases k <;> rfl
  refine ⟨h, ?_, hkind .otherwise, hkind .start, hkind .finish⟩
  rintro rfl
  exact hdot (by decide)

theorem labelsOf_prologueCode (o : RoutineOptions) (slotCount : Nat) (frame : Int) :
    labelsOf (prologueCode o slotCount frame) = [o.entry] := by
  rw [prologueCode, labelsOf_append, labelsOf_append, labelsOf_append, labelsOf_append,
    labelsOf_remark]
  split <;> rfl

theorem targetsOf_prologueCode (o : RoutineOptions) (slotCount : Nat) (frame : Int) :
    targetsOf (prologueCode o slotCount frame) = [] := by
  rw [prologueCode, targetsOf_append, targetsOf_append, targetsOf_append, targetsOf_append,
    targetsOf_remark]
  split <;> rfl

theorem Program.labelsOf_code (p : Program) (o : RoutineOptions) (frame : Int) :
    labelsOf (p.code o frame) =
      o.entry :: (labelsOf (codeAll o.comments p.statements 0) ++ [returnLabel]) := by
  rw [Program.code, labelsOf_append, labelsOf_prologueCode, labelsOf_append]
  rfl

theorem Program.targetsOf_code (p : Program) (o : RoutineOptions) (frame : Int) :
    targetsOf (p.code o frame) = targetsOf (codeAll o.comments p.statements 0) := by
  rw [Program.code, targetsOf_append, targetsOf_prologueCode, targetsOf_append, List.nil_append]
  exact List.append_nil _

/-- No label of a routine has two places. -/
theorem Program.nodup_labelsOf_code (p : Program) {o : RoutineOptions} (h : EntryName o.entry)
    (frame : Int) : (labelsOf (p.code o frame)).Nodup := by
  have hbody := codeAll_numbered o.comments p.statements 0
  rw [p.labelsOf_code, List.nodup_cons]
  refine ⟨fun hmem => ?_, List.Nodup.append hbody.distinct (List.nodup_singleton _) ?_⟩
  · rcases List.mem_append.mp hmem with hmem | hmem
    · obtain ⟨k, n, -, -, heq⟩ := hbody.within _ hmem
      exact h.ne_text k n heq
    · exact h.ne_return (by simpa using hmem)
  · intro name hmem hreturn
    obtain ⟨k, n, -, -, rfl⟩ := hbody.within _ hmem
    exact k.text_ne_returnLabel n (by simpa using hreturn)

/-- Every jump of a routine has a target. -/
theorem Program.targetsOf_code_subset (p : Program) (o : RoutineOptions) (frame : Int) :
    ∀ name ∈ targetsOf (p.code o frame), name ∈ labelsOf (p.code o frame) := by
  intro name hname
  rw [p.targetsOf_code] at hname
  rw [p.labelsOf_code, List.mem_cons, List.mem_append, List.mem_singleton]
  rcases (codeAll_numbered o.comments p.statements 0).target name hname with h | h
  · exact Or.inr (Or.inr h)
  · exact Or.inr (Or.inl h)

end StackLang
