import StackLang.Proofs.RoutineRun

/-!
# Between statements

Where the statements of a program begin and end in its routine. At all these places the generator
has counted no value on the evaluation stack.
-/

namespace StackLang

/-- The code of the statement, with label indices from `n` on, begins after `i` instructions of the
routine. -/
inductive Program.Contains (p : Program) (comments : Bool) (frame : Int) :
    (s : Stmt) → (n i : Nat) → Prop where
  | top {before s after} : p.statements = before ++ s :: after →
      Contains p comments frame s (labelCountAll before)
        (bodyStart frame + codeSize (codeAll comments before 0))
  | ifThen {location c a n i} : Contains p comments frame (.ifThen location c a) n i →
      Contains p comments frame a (n + 1) (i + codeSize (conditionCode c (endLabel n)))
  | ifElse {location c a b n i} : Contains p comments frame (.ifElse location c a b) n i →
      Contains p comments frame a (n + 1) (i + codeSize (conditionCode c (elseLabel n)))
  | otherwise {location c a b n i} : Contains p comments frame (.ifElse location c a b) n i →
      Contains p comments frame b (n + 1 + a.labelCount)
        (i + codeSize (conditionCode c (elseLabel n)) + codeSize (a.code comments (n + 1)) + 1)
  | while_ {location c a n i} : Contains p comments frame (.while_ location c a) n i →
      Contains p comments frame a (n + 1) (i + codeSize (conditionCode c (endLabel n)))
  | for_ {location initializer c u a n i} :
      Contains p comments frame (.for_ location initializer c u a) n i →
      Contains p comments frame a (n + 1) (i + codeSize (clauseCode initializer discardedCode) +
        codeSize (clauseCode c (conditionCode · (endLabel n))))
  | block {location before s after n i} :
      Contains p comments frame (.block location (before ++ s :: after)) n i →
      Contains p comments frame s (n + labelCountAll before)
        (i + codeSize (codeAll comments before n))

/-- A statement begins or ends at instruction `k` of the routine. -/
def Program.Boundary (p : Program) (comments : Bool) (frame : Int) (k : Nat) : Prop :=
  ∃ s n i, p.Contains comments frame s n i ∧ (k = i ∨ k = i + codeSize (s.code comments n))

/-! ## First instructions -/

/-- The instruction at `k` was emitted with no value on the evaluation stack. -/
def IsLevel (code : List Emission) (k : Nat) : Prop :=
  ∃ ins, instrAt? code k = some ⟨0, .instr ins⟩

/-- The first instruction of the code was emitted at depth `d`. -/
def Starts (d : Nat) (code : List Emission) : Prop :=
  ∃ ins, instrAt? code 0 = some ⟨d, .instr ins⟩

/-- The code has no instructions, or its first one was emitted at depth zero. -/
def Flat (code : List Emission) : Prop :=
  codeSize code = 0 ∨ Starts 0 code

theorem starts_instr (d : Nat) (m : Mnemonic) (ops : List Operand) (rest : List Emission) :
    Starts d (Emission.instr d m ops :: rest) :=
  ⟨_, rfl⟩

theorem Starts.append {d : Nat} {a : List Emission} (h : Starts d a) (b : List Emission) :
    Starts d (a ++ b) := by
  obtain ⟨ins, hins⟩ := h
  have hpos : 0 < codeSize a := by
    rw [codeSize_eq_length]
    exact (List.getElem?_eq_some_iff.mp hins).choose
  exact ⟨ins, by rw [instrAt?_append_left hpos, hins]⟩

theorem Starts.after {d : Nat} {a b : List Emission} (ha : codeSize a = 0) (h : Starts d b) :
    Starts d (a ++ b) := by
  obtain ⟨ins, hins⟩ := h
  refine ⟨ins, ?_⟩
  rw [← hins, ← instrAt?_append_right a b 0, ha]

theorem Flat.append {a b : List Emission} (ha : Flat a) (hb : Flat b) : Flat (a ++ b) := by
  rcases ha with ha | ha
  · rcases hb with hb | hb
    · exact Or.inl (by rw [codeSize_append, ha, hb])
    · exact Or.inr (hb.after ha)
  · exact Or.inr (ha.append b)

theorem Starts.isLevel {code block : List Emission} {i : Nat} (h : Starts 0 block)
    (hs : Stands code i block) : IsLevel code i := by
  obtain ⟨before, after, rfl, rfl⟩ := hs
  obtain ⟨ins, hins⟩ := h.append after
  exact ⟨ins, by rw [← hins, ← instrAt?_append_right before (block ++ after) 0, Nat.add_zero]⟩

/-- Code that ends level begins level. -/
theorem Flat.isLevel {code block : List Emission} {i : Nat} (h : Flat block)
    (hs : Stands code i block) (hend : IsLevel code (i + codeSize block)) : IsLevel code i := by
  rcases h with hzero | hstarts
  · rwa [hzero] at hend
  · exact hstarts.isLevel hs

variable {P : VarRef → Prop} {N : Int → Prop}

theorem Expr.starts_code {e : Expr} (h : e.All P N) (d : Nat) : Starts d (e.code d) := by
  induction e generalizing d with
  | number l value =>
      unfold Expr.code numberCode
      split <;> exact ⟨_, rfl⟩
  | var r => exact ⟨_, rfl⟩
  | binary l op a b iha ihb => exact (iha h.1 d).append _
  | assign l r e ih => exact ⟨_, rfl⟩
  | bare l => exact h.elim

theorem conditionCode_starts {e : Expr} (h : e.All P N) (target : String) :
    Starts 0 (conditionCode e target) :=
  (Expr.starts_code h 0).append _

theorem clauseCode_flat {clause : Option Expr} (h : ClauseAll P N clause)
    {body : Expr → List Emission} (hbody : ∀ {e : Expr}, e.All P N → Starts 0 (body e)) :
    Flat (clauseCode clause body) := by
  cases clause with
  | none => exact Or.inl rfl
  | some e => exact Or.inr (hbody h)

theorem discardedCode_starts {e : Expr} (h : e.All P N) : Starts 0 (discardedCode e) :=
  (Expr.starts_code h 0).append _

theorem remark_flat (comments : Bool) (text : String) : Flat (remark comments text) :=
  Or.inl (codeSize_remark comments text)

/-- What follows the body of a loop begins level. -/
theorem loopTail_starts {update : Option Expr} (h : ClauseAll P N update)
    {updateRemark : List Emission} (hr : codeSize updateRemark = 0) (n : Nat) :
    Starts 0 (clauseCode update (fun e => updateRemark ++ discardedCode e) ++
      [Emission.instr 0 .jmp [.label (beginLabel n)], Emission.label (endLabel n)]) := by
  cases update with
  | none => exact ⟨_, rfl⟩
  | some e => exact ((discardedCode_starts h).after hr).append _

theorem loopCode_flat {test update : Option Expr} {testRemark updateRemark body : List Emission}
    (ht : ClauseAll P N test) (hu : ClauseAll P N update) (htr : codeSize testRemark = 0)
    (hur : codeSize updateRemark = 0) (hbody : Flat body) (n : Nat) :
    Flat (loopCode test testRemark update updateRemark n body) := by
  have htest : Flat (clauseCode test fun e => testRemark ++ conditionCode e (endLabel n)) :=
    clauseCode_flat ht fun he => (conditionCode_starts he _).after htr
  have hlabel : Flat [Emission.label (beginLabel n)] := Or.inl rfl
  exact hlabel.append (htest.append (hbody.append (Or.inr (loopTail_starts hu hur n))))

mutual

/-- A statement begins level. -/
theorem Stmt.flat_code (comments : Bool) :
    ∀ {s : Stmt}, s.All P N → ∀ n, Flat (s.code comments n)
  | .expr _ e, h, n => Or.inr ((Expr.starts_code h 0).append _)
  | .ret _ e, h, n =>
      (remark_flat comments "return").append (Or.inr ((Expr.starts_code h 0).append _))
  | .ifThen _ c a, h, n => (remark_flat comments "if condition").append
      (Or.inr ((conditionCode_starts h.1 _).append _))
  | .ifElse _ c a b, h, n => (remark_flat comments "if condition").append
      (Or.inr ((conditionCode_starts h.1 _).append _))
  | .while_ _ c a, h, n => by
      have htest : ClauseAll P N (some c) := h.1
      have hupdate : ClauseAll P N none := trivial
      exact loopCode_flat htest hupdate (codeSize_remark _ _) rfl
        (Stmt.flat_code comments h.2 (n + 1)) n
  | .for_ _ i c u a, h, n => by
      have hinit : Flat (clauseCode i fun e => remark comments "for init" ++ discardedCode e) :=
        clauseCode_flat h.1 fun he => (discardedCode_starts he).after (codeSize_remark _ _)
      exact hinit.append (loopCode_flat h.2.1 h.2.2.1 (codeSize_remark _ _) (codeSize_remark _ _)
        (Stmt.flat_code comments h.2.2.2 (n + 1)) n)
  | .block _ ss, h, n => codeAll_flat comments h n
  | .bare _, h, _ => h.elim

theorem codeAll_flat (comments : Bool) :
    ∀ {ss : List Stmt}, AllStmts P N ss → ∀ n, Flat (codeAll comments ss n)
  | [], _, _ => Or.inl rfl
  | _ :: _, h, n => (Stmt.flat_code comments h.1 n).append (codeAll_flat comments h.2 _)

end

/-! ## Boundaries -/

theorem codeAll_append (comments : Bool) (xs ys : List Stmt) (n : Nat) :
    codeAll comments (xs ++ ys) n =
      codeAll comments xs n ++ codeAll comments ys (n + labelCountAll xs) := by
  induction xs generalizing n with
  | nil => rfl
  | cons x xs ih => simp [codeAll, labelCountAll, ih, Nat.add_assoc]

theorem AllStmts.append {xs ys : List Stmt} (h : AllStmts P N (xs ++ ys)) :
    AllStmts P N xs ∧ AllStmts P N ys := by
  induction xs with
  | nil => exact ⟨trivial, h⟩
  | cons x xs ih => exact ⟨⟨h.1, (ih h.2).1⟩, (ih h.2).2⟩

theorem codeSize_clauseCode (clause : Option Expr) {before : List Emission}
    (h : codeSize before = 0) (body : Expr → List Emission) :
    codeSize (clauseCode clause fun e => before ++ body e) = codeSize (clauseCode clause body) := by
  cases clause with
  | none => rfl
  | some e => simp [clauseCode, h]

/-- The body of a loop, and what comes after it. -/
theorem Stands.loopBody {code : List Emission} {i n : Nat} {test update : Option Expr}
    {testRemark updateRemark body : List Emission}
    (hs : Stands code i (loopCode test testRemark update updateRemark n body))
    (ht : codeSize testRemark = 0) (hu : codeSize updateRemark = 0)
    (hupdate : ClauseAll P N update) :
    Stands code (i + codeSize (clauseCode test (conditionCode · (endLabel n)))) body ∧
      IsLevel code (i + codeSize (clauseCode test (conditionCode · (endLabel n))) +
        codeSize body) := by
  rw [← codeSize_clauseCode test ht]
  exact ⟨hs.pastLabel.right.left, (loopTail_starts hupdate hu n).isLevel hs.pastLabel.right.right⟩

/-- The statement stands at `i`, and what comes after it begins level. -/
structure LevelAt (code : List Emission) (comments : Bool) (P : VarRef → Prop) (N : Int → Prop)
    (s : Stmt) (n i : Nat) : Prop where
  all : s.All P N
  stands : Stands code i (s.code comments n)
  finish : IsLevel code (i + codeSize (s.code comments n))

/-- One of several statements that end level. -/
theorem LevelAt.of_list {code : List Emission} {comments : Bool} {before after : List Stmt}
    {s : Stmt} {n i : Nat} (h : AllStmts P N (before ++ s :: after))
    (hs : Stands code i (codeAll comments (before ++ s :: after) n))
    (hend : IsLevel code (i + codeSize (codeAll comments (before ++ s :: after) n))) :
    LevelAt code comments P N s (n + labelCountAll before)
      (i + codeSize (codeAll comments before n)) := by
  have hall := h.append.2
  rw [codeAll_append, codeAll] at hs hend
  refine ⟨hall.1, hs.right.left, (codeAll_flat comments hall.2 _).isLevel hs.right.right ?_⟩
  rw [codeSize_append, codeSize_append] at hend
  rwa [Nat.add_assoc, Nat.add_assoc]

theorem Program.Contains.levelAt {p : Program} {o : RoutineOptions} {frame : Int} {s : Stmt}
    {n i : Nat} (h : p.Contains o.comments frame s n i) (hall : AllStmts P N p.statements) :
    LevelAt (p.code o frame) o.comments P N s n i := by
  induction h with
  | @top before s after heq =>
      have hcode : Stands (p.code o frame) (bodyStart frame)
          (codeAll o.comments p.statements 0 ++ epilogueCode) := by
        have hright := (Stands.self (p.code o frame)).right
        rwa [codeSize_prologueCode, Nat.zero_add] at hright
      have hend := (starts_instr _ _ _ _).isLevel hcode.right
      have hbody := hcode.left
      rw [heq] at hall hbody hend
      have hlevel := LevelAt.of_list hall hbody hend
      rwa [Nat.zero_add] at hlevel
  | @ifThen location c a n i _ ih =>
      have hs := ih.stands.pastRemark
      refine ⟨ih.all.2, hs.right.left, ?_⟩
      have hend := ih.finish
      simpa [Stmt.code, Nat.add_assoc] using hend
  | @ifElse location c a b n i _ ih =>
      have hs := ih.stands.pastRemark
      exact ⟨ih.all.2.1, hs.right.left, (starts_instr _ _ _ _).isLevel hs.right.right⟩
  | @otherwise location c a b n i _ ih =>
      have hs := ih.stands.pastRemark
      refine ⟨ih.all.2.2, hs.right.right.next.pastLabel.left, ?_⟩
      have hend := ih.finish
      simpa [Stmt.code, Nat.add_assoc, Nat.add_comm, Nat.add_left_comm] using hend
  | @while_ location c a n i _ ih =>
      have hupdate : ClauseAll P N none := trivial
      have hbody := ih.stands.loopBody (codeSize_remark _ _) rfl hupdate
      exact ⟨ih.all.2, hbody.1, hbody.2⟩
  | @for_ location initializer c u a n i _ ih =>
      have hloop := ih.stands.right
      rw [codeSize_clauseCode initializer (codeSize_remark _ _)] at hloop
      have hbody := hloop.loopBody (codeSize_remark _ _) (codeSize_remark _ _) ih.all.2.2.1
      exact ⟨ih.all.2.2.2, hbody.1, hbody.2⟩
  | block _ ih => exact LevelAt.of_list ih.all ih.stands ih.finish

/-- Between statements no value is on the evaluation stack. -/
theorem Program.Boundary.isLevel {p : Program} {o : RoutineOptions} {frame : Int} {k : Nat}
    (h : p.Boundary o.comments frame k) (hall : AllStmts P N p.statements) :
    IsLevel (p.code o frame) k := by
  obtain ⟨s, n, i, hcontains, rfl | rfl⟩ := h
  · have hlevel := hcontains.levelAt hall
    exact (Stmt.flat_code o.comments hlevel.all n).isLevel hlevel.stands hlevel.finish
  · exact (hcontains.levelAt hall).finish

end StackLang
