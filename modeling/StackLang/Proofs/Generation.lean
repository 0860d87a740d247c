import StackLang.Proofs.Code

/-!
# What the generator does

The generator emits the code of a program, or fails at the first thing in it that no code can be
made of. The counters it keeps on the way agree with the shape of the code, so that its checks of
the evaluation stack never fail.
-/

namespace StackLang

open Emission (instr)

/-! ## What is wrong with a program -/

def VarRef.offences (frame : Int) (r : VarRef) : List GenerationFault :=
  if 0 < r.offset ∧ r.offset ≤ frame then [] else [.outside frame r]

/-- What no code can be made of in an expression, in the order in which the generator gets there:
variables outside the frame and expressions without a form. -/
def Expr.offences (frame : Int) : Expr → List GenerationFault
  | .number _ _ => []
  | .var r => r.offences frame
  | .binary _ _ a b => a.offences frame ++ b.offences frame
  | .assign _ r e => r.offences frame ++ e.offences frame
  | .bare l => [.unsupportedExpression l]

def clauseOffences (frame : Int) : Option Expr → List GenerationFault
  | none => []
  | some e => e.offences frame

mutual

def Stmt.offences (frame : Int) : Stmt → List GenerationFault
  | .expr _ e | .ret _ e => e.offences frame
  | .ifThen _ c a => c.offences frame ++ a.offences frame
  | .ifElse _ c a b => c.offences frame ++ (a.offences frame ++ b.offences frame)
  | .while_ _ c a => c.offences frame ++ a.offences frame
  -- The update stands before the body in the text, but after it in the code.
  | .for_ _ i c u a => clauseOffences frame i ++
      (clauseOffences frame c ++ (a.offences frame ++ clauseOffences frame u))
  | .block _ ss => offencesAll frame ss
  | .bare l => [.unsupportedStatement l]

def offencesAll (frame : Int) : List Stmt → List GenerationFault
  | [] => []
  | s :: ss => s.offences frame ++ offencesAll frame ss

end

/-- The slots of the table come before the statements. -/
def Program.offences (p : Program) (frame : Int) : List GenerationFault :=
  (p.slots.slots.filter fun slot => frame < slot.offset).map (.uncovered frame) ++
    offencesAll frame p.statements

section

variable {frame : Int} {N : Int → Prop}

theorem VarRef.offences_eq_nil_iff {r : VarRef} : r.offences frame = [] ↔ r.InFrame frame := by
  unfold VarRef.offences VarRef.InFrame
  split <;> simp [*]

theorem Expr.offences_eq_nil_iff {e : Expr} :
    e.offences frame = [] ↔ e.All (VarRef.InFrame frame) fun _ => True := by
  induction e with
  | number l value => simp [Expr.offences, Expr.All]
  | var r => exact VarRef.offences_eq_nil_iff
  | binary l op a b iha ihb =>
      rw [Expr.offences, List.append_eq_nil_iff, iha, ihb]
      rfl
  | assign l r e ih =>
      rw [Expr.offences, List.append_eq_nil_iff, VarRef.offences_eq_nil_iff, ih]
      rfl
  | bare l => simp [Expr.offences, Expr.All]

theorem clauseOffences_eq_nil_iff {clause : Option Expr} :
    clauseOffences frame clause = [] ↔ ClauseAll (VarRef.InFrame frame) (fun _ => True) clause := by
  cases clause with
  | none => simp [clauseOffences, ClauseAll]
  | some e => exact Expr.offences_eq_nil_iff

mutual

theorem Stmt.offences_eq_nil_iff :
    ∀ {s : Stmt}, s.offences frame = [] ↔ s.All (VarRef.InFrame frame) fun _ => True
  | .expr _ _ => Expr.offences_eq_nil_iff
  | .ret _ _ => Expr.offences_eq_nil_iff
  | .ifThen _ _ a => by
      rw [Stmt.offences, List.append_eq_nil_iff, Expr.offences_eq_nil_iff,
        Stmt.offences_eq_nil_iff, Stmt.All]
  | .ifElse _ _ a b => by
      rw [Stmt.offences, List.append_eq_nil_iff, List.append_eq_nil_iff, Expr.offences_eq_nil_iff,
        Stmt.offences_eq_nil_iff, Stmt.offences_eq_nil_iff, Stmt.All]
  | .while_ _ _ a => by
      rw [Stmt.offences, List.append_eq_nil_iff, Expr.offences_eq_nil_iff,
        Stmt.offences_eq_nil_iff, Stmt.All]
  | .for_ _ i c u a => by
      simp only [Stmt.offences, List.append_eq_nil_iff, clauseOffences_eq_nil_iff,
        Stmt.offences_eq_nil_iff (s := a), Stmt.All]
      tauto
  | .block _ _ => offencesAll_eq_nil_iff
  | .bare _ => by simp [Stmt.offences, Stmt.All]

theorem offencesAll_eq_nil_iff :
    ∀ {ss : List Stmt},
      offencesAll frame ss = [] ↔ AllStmts (VarRef.InFrame frame) (fun _ => True) ss
  | [] => by simp [offencesAll, AllStmts]
  | s :: ss => by
      rw [offencesAll, List.append_eq_nil_iff, Stmt.offences_eq_nil_iff, offencesAll_eq_nil_iff,
        AllStmts]

end

/-- Nothing is wrong if all slots, of the table and of the uses, lie in the frame. -/
theorem Program.offences_eq_nil_iff {p : Program} :
    p.offences frame = [] ↔ (∀ slot ∈ p.slots.slots, slot.offset ≤ frame) ∧
      AllStmts (VarRef.InFrame frame) (fun _ => True) p.statements := by
  rw [Program.offences, List.append_eq_nil_iff, offencesAll_eq_nil_iff, List.map_eq_nil_iff,
    List.filter_eq_nil_iff]
  simp

end

/-! ## What the generator emits -/

/-- What the generator yields: the first of the faults, if there are any. -/
def firstOr {α : Type} (faults : List GenerationFault) (a : α) : Except GenerationFault α :=
  match faults with
  | [] => .ok a
  | f :: _ => .error f

namespace Emit

/-- From counters `s` the part emits `x` and moves on to `s'`, or it fails with the first of the
faults. -/
def Yields (a : Emit) (s : Counters) (faults : List GenerationFault) (x : List Emission)
    (s' : Counters) : Prop :=
  (a s).mapError Prod.fst = firstOr faults (x, s')

theorem Yields.ok {a : Emit} {s s' : Counters} {x : List Emission} (h : a.Yields s [] x s') :
    a s = .ok (x, s') := by
  unfold Yields at h
  cases ha : a s with
  | error f => rw [ha] at h; cases h
  | ok r => rw [ha] at h; cases h; rfl

theorem Yields.error {a : Emit} {s s' : Counters} {x : List Emission} {f : GenerationFault}
    {fs : List GenerationFault} (h : a.Yields s (f :: fs) x s') : ∃ t, a s = .error (f, t) := by
  unfold Yields at h
  cases ha : a s with
  | error r => rw [ha] at h; cases h; exact ⟨r.2, rfl⟩
  | ok r => rw [ha] at h; cases h

theorem Yields.of_ok {a : Emit} {s s' : Counters} {x : List Emission} (h : a s = .ok (x, s')) :
    a.Yields s [] x s' := by
  unfold Yields
  rw [h]
  rfl

theorem Yields.of_error {a : Emit} {s s' t : Counters} {x : List Emission} {f : GenerationFault}
    {fs : List GenerationFault} (h : a s = .error (f, t)) : a.Yields s (f :: fs) x s' := by
  unfold Yields
  rw [h]
  rfl

theorem Yields.congr {a : Emit} {s s' t' : Counters} {x y : List Emission}
    {fs gs : List GenerationFault} (h : a.Yields s fs x s') (hfaults : fs = gs) (hcode : x = y)
    (hcounters : s' = t') : a.Yields s gs y t' :=
  hfaults ▸ hcode ▸ hcounters ▸ h

/-- The first fault of two parts is one of the first part, if it has any. -/
theorem Yields.followedBy {a b : Emit} {s s' s'' : Counters} {x y : List Emission}
    {fs gs : List GenerationFault} (ha : a.Yields s fs x s') (hb : b.Yields s' gs y s'') :
    (a.followedBy b).Yields s (fs ++ gs) (x ++ y) s'' := by
  cases fs with
  | cons f fs =>
      obtain ⟨t, ht⟩ := ha.error
      exact .of_error (t := t) (by simp [Emit.followedBy, ht, bind, Except.bind])
  | nil =>
      cases gs with
      | cons g gs =>
          obtain ⟨t, ht⟩ := hb.error
          exact .of_error (t := t) (by simp [Emit.followedBy, ha.ok, ht, bind, Except.bind])
      | nil =>
          exact .of_ok (by
            simp [Emit.followedBy, ha.ok, hb.ok, bind, Except.bind, pure, Except.pure])

theorem inOrder_nil (s : Counters) : (inOrder []).Yields s [] [] s := rfl

theorem Yields.inOrder {a : Emit} {rest : List Emit} {s s' s'' : Counters} {x y : List Emission}
    {fs gs : List GenerationFault} (ha : a.Yields s fs x s')
    (hr : (inOrder rest).Yields s' gs y s'') :
    (Emit.inOrder (a :: rest)).Yields s (fs ++ gs) (x ++ y) s'' :=
  ha.followedBy hr

theorem line_yields (l : Line) (s : Counters) : (line l).Yields s [] [⟨s.depth, l⟩] s := rfl

theorem instr_yields (m : Mnemonic) (operands : List Operand) (s : Counters) :
    (instr m operands).Yields s [] [Emission.instr s.depth m operands] s := rfl

theorem push_yields (source : Operand) (d n : Nat) :
    (push source).Yields ⟨d, n⟩ [] [Emission.instr d .push [source]] ⟨d + 1, n⟩ := rfl

theorem pop_yields (into : Register) (d n : Nat) :
    (pop into).Yields ⟨d + 1, n⟩ [] [Emission.instr (d + 1) .pop [.reg into]] ⟨d, n⟩ := rfl

theorem label_yields (name : String) (n : Nat) :
    (label name).Yields ⟨0, n⟩ [] [Emission.label name] ⟨0, n⟩ := rfl

theorem comment_yields (enabled : Bool) (text : String) (n : Nat) :
    (comment enabled text).Yields ⟨0, n⟩ [] (remark enabled text) ⟨0, n⟩ := by
  cases enabled <;> rfl

/-- The check of the depth after an expression never fails. -/
theorem Yields.leavingOne {e : Expr} {body : Emit} {d n : Nat} {x : List Emission}
    {fs : List GenerationFault} (h : body.Yields ⟨d, n⟩ fs x ⟨d + 1, n⟩) :
    (leavingOne e body).Yields ⟨d, n⟩ fs x ⟨d + 1, n⟩ := by
  cases fs with
  | nil => exact .of_ok (by simp [Emit.leavingOne, h.ok, bind, Except.bind, pure, Except.pure])
  | cons f fs =>
      obtain ⟨t, ht⟩ := h.error
      exact .of_error (t := t) (by simp [Emit.leavingOne, ht, bind, Except.bind])

/-- The check of the depth after a statement never fails. -/
theorem Yields.balanced {stmt : Stmt} {body : Emit} {n n' : Nat} {x : List Emission}
    {fs : List GenerationFault} (h : body.Yields ⟨0, n⟩ fs x ⟨0, n'⟩) :
    (balanced stmt body).Yields ⟨0, n⟩ fs x ⟨0, n'⟩ := by
  cases fs with
  | nil => exact .of_ok (by simp [Emit.balanced, h.ok, bind, Except.bind, pure, Except.pure])
  | cons f fs =>
      obtain ⟨t, ht⟩ := h.error
      exact .of_error (t := t) (by simp [Emit.balanced, ht, bind, Except.bind])

theorem Yields.withLabel {body : Nat → Emit} {d n : Nat} {s' : Counters} {x : List Emission}
    {fs : List GenerationFault} (h : (body n).Yields ⟨d, n + 1⟩ fs x s') :
    (withLabel body).Yields ⟨d, n⟩ fs x s' := h

end Emit

open Emit

theorem VarRef.emitAddress_yields (frame : Int) (r : VarRef) (d n : Nat) :
    (r.emitAddress frame).Yields ⟨d, n⟩ (r.offences frame) (r.addressCode d) ⟨d + 1, n⟩ := by
  unfold VarRef.emitAddress VarRef.offences
  split
  · exact (instr_yields _ _ _).inOrder ((push_yields _ _ _).inOrder (inOrder_nil _))
  · rfl

theorem emitNumber_yields (value : Int) (d n : Nat) :
    (emitNumber value).Yields ⟨d, n⟩ [] (numberCode value d) ⟨d + 1, n⟩ := by
  unfold emitNumber numberCode
  split
  · exact push_yields _ _ _
  · exact (instr_yields _ _ _).inOrder ((push_yields _ _ _).inOrder (inOrder_nil _))

theorem BinaryOp.emit_yields (op : BinaryOp) (d n : Nat) :
    op.emit.Yields ⟨d, n⟩ [] (op.code d) ⟨d, n⟩ := by
  cases op <;> rfl

/-- The generator emits the code of an expression and counts one value more, or fails at the first
offence. -/
theorem Expr.emit_yields (frame : Int) (e : Expr) (d n : Nat) :
    (e.emit frame).Yields ⟨d, n⟩ (e.offences frame) (e.code d) ⟨d + 1, n⟩ := by
  induction e generalizing d with
  | number l value => exact (emitNumber_yields value d n).leavingOne
  | var r =>
      have hall := (r.emitAddress_yields frame d n).inOrder ((pop_yields .rax _ _).inOrder
        ((instr_yields .mov [.reg .rax, .mem .rax 0] _).inOrder
          ((push_yields (.reg .rax) _ _).inOrder (inOrder_nil _))))
      refine Yields.leavingOne ?_
      simpa [Expr.offences, Expr.code] using hall
  | binary l op a b iha ihb =>
      have hall := (iha d).inOrder ((ihb (d + 1)).inOrder ((pop_yields .rdi _ _).inOrder
        ((pop_yields .rax _ _).inOrder ((op.emit_yields d n).inOrder
          ((push_yields (.reg .rax) _ _).inOrder (inOrder_nil _))))))
      refine Yields.leavingOne ?_
      simpa [Expr.offences, Expr.code] using hall
  | assign l r e ih =>
      have hall := (r.emitAddress_yields frame d n).inOrder ((ih (d + 1)).inOrder
        ((pop_yields .rdi _ _).inOrder ((pop_yields .rax _ _).inOrder
          ((instr_yields .mov [.mem .rax 0, .reg .rdi] _).inOrder
            ((push_yields (.reg .rdi) _ _).inOrder (inOrder_nil _))))))
      refine Yields.leavingOne ?_
      simpa [Expr.offences, Expr.code] using hall
  | bare l => rfl

theorem Expr.emit_ok {N : Int → Prop} {frame : Int} {e : Expr}
    (h : e.All (VarRef.InFrame frame) N) (d n : Nat) :
    e.emit frame ⟨d, n⟩ = .ok (e.code d, ⟨d + 1, n⟩) := by
  have hyields := e.emit_yields frame d n
  rw [Expr.offences_eq_nil_iff.mpr (h.mono (fun _ hr => hr) fun _ _ => trivial)] at hyields
  exact hyields.ok

theorem emitCondition_yields (frame : Int) (e : Expr) (target : String) (n : Nat) :
    (emitCondition frame e target).Yields ⟨0, n⟩ (e.offences frame) (conditionCode e target)
      ⟨0, n⟩ := by
  have hall := (e.emit_yields frame 0 n).inOrder ((pop_yields .rax _ _).inOrder
    ((instr_yields .cmp [.reg .rax, .imm 0] _).inOrder
      ((instr_yields .je [.label target] _).inOrder (inOrder_nil _))))
  simpa [emitCondition, conditionCode] using hall

theorem emitDiscarded_yields (frame : Int) (e : Expr) (n : Nat) :
    (emitDiscarded frame e).Yields ⟨0, n⟩ (e.offences frame) (discardedCode e) ⟨0, n⟩ := by
  have hall := (e.emit_yields frame 0 n).inOrder ((pop_yields .rax _ _).inOrder (inOrder_nil _))
  simpa [emitDiscarded, discardedCode] using hall

/-- A clause of a loop, with its comment. -/
theorem emitClause_yields (frame : Int) (clause : Option Expr) {body : Expr → Emit}
    {code : Expr → List Emission} (comments : Bool) (text : String) {n : Nat}
    (hbody : ∀ e, (body e).Yields ⟨0, n⟩ (e.offences frame) (code e) ⟨0, n⟩) :
    (emitClause clause fun e => inOrder [comment comments text, body e]).Yields ⟨0, n⟩
      (clauseOffences frame clause)
      (clauseCode clause fun e => remark comments text ++ code e) ⟨0, n⟩ := by
  cases clause with
  | none => rfl
  | some e =>
      have hall := (comment_yields comments text n).inOrder ((hbody e).inOrder (inOrder_nil _))
      simpa [emitClause, clauseCode, clauseOffences] using hall

mutual

/-- The generator emits the code of a statement and moves the label index past its own, or fails at
the first offence. -/
theorem Stmt.emit_yields (comments : Bool) (frame : Int) : ∀ (s : Stmt) (n : Nat),
    (s.emit comments frame).Yields ⟨0, n⟩ (s.offences frame) (s.code comments n)
      ⟨0, n + s.labelCount⟩
  | .expr _ e, n => by
      have hall := (e.emit_yields frame 0 n).inOrder ((pop_yields .rcx _ _).inOrder
        (inOrder_nil _))
      refine Yields.balanced ?_
      simpa [Stmt.offences, Stmt.code, Stmt.labelCount] using hall
  | .ret _ e, n => by
      have hall := (comment_yields comments "return" n).inOrder ((e.emit_yields frame 0 n).inOrder
        ((pop_yields .rax _ _).inOrder ((instr_yields .jmp [.label returnLabel] _).inOrder
          (inOrder_nil _))))
      refine Yields.balanced ?_
      simpa [Stmt.offences, Stmt.code, Stmt.labelCount] using hall
  | .ifThen _ c a, n => by
      have hall := (comment_yields comments "if condition" (n + 1)).inOrder
        ((emitCondition_yields frame c (endLabel n) (n + 1)).inOrder
          ((Stmt.emit_yields comments frame a (n + 1)).inOrder
            ((label_yields (endLabel n) _).inOrder (inOrder_nil _))))
      refine Yields.balanced (Yields.withLabel ?_)
      rw [Nat.add_right_comm] at hall
      simpa [Stmt.offences, Stmt.code, Stmt.labelCount, Nat.add_assoc] using hall
  | .ifElse _ c a b, n => by
      have hall := (comment_yields comments "if condition" (n + 1)).inOrder
        ((emitCondition_yields frame c (elseLabel n) (n + 1)).inOrder
          ((Stmt.emit_yields comments frame a (n + 1)).inOrder
            ((instr_yields .jmp [.label (endLabel n)] _).inOrder
              ((label_yields (elseLabel n) _).inOrder
                ((Stmt.emit_yields comments frame b (n + 1 + a.labelCount)).inOrder
                  ((label_yields (endLabel n) _).inOrder (inOrder_nil _)))))))
      have hindex : n + 1 + a.labelCount + b.labelCount =
          n + (a.labelCount + b.labelCount + 1) := by omega
      refine Yields.balanced (Yields.withLabel ?_)
      rw [hindex] at hall
      simpa [Stmt.offences, Stmt.code, Stmt.labelCount] using hall
  | .while_ _ c a, n => by
      have hall := (label_yields (beginLabel n) (n + 1)).inOrder
        ((comment_yields comments "while condition" (n + 1)).inOrder
          ((emitCondition_yields frame c (endLabel n) (n + 1)).inOrder
            ((Stmt.emit_yields comments frame a (n + 1)).inOrder
              ((instr_yields .jmp [.label (beginLabel n)] _).inOrder
                ((label_yields (endLabel n) _).inOrder (inOrder_nil _))))))
      refine Yields.balanced (Yields.withLabel ?_)
      rw [Nat.add_right_comm] at hall
      simpa [Stmt.offences, Stmt.code, Stmt.labelCount, loopCode, clauseCode, Nat.add_assoc]
        using hall
  | .for_ _ i c u a, n => by
      have hi := emitClause_yields frame i comments "for init"
        fun e => emitDiscarded_yields frame e n
      have hc := emitClause_yields frame c comments "for condition"
        fun e => emitCondition_yields frame e (endLabel n) (n + 1)
      have hu := emitClause_yields frame u comments "for update"
        fun e => emitDiscarded_yields frame e (n + 1 + a.labelCount)
      have hloop := (label_yields (beginLabel n) (n + 1)).inOrder (hc.inOrder
        ((Stmt.emit_yields comments frame a (n + 1)).inOrder (hu.inOrder
          ((instr_yields .jmp [.label (beginLabel n)] _).inOrder
            ((label_yields (endLabel n) _).inOrder (inOrder_nil _))))))
      refine Yields.balanced
        (Yields.congr (hi.inOrder (Yields.inOrder (.withLabel hloop) (inOrder_nil _))) ?_ ?_ ?_)
      · simp [Stmt.offences]
      · simp [Stmt.code, loopCode]
      · simp [Stmt.labelCount, Nat.add_assoc, Nat.add_comm]
  | .block _ ss, n => (emitAll_yields comments frame ss n).balanced
  | .bare _, _ => rfl

theorem emitAll_yields (comments : Bool) (frame : Int) : ∀ (ss : List Stmt) (n : Nat),
    (emitAll comments frame ss).Yields ⟨0, n⟩ (offencesAll frame ss) (codeAll comments ss n)
      ⟨0, n + labelCountAll ss⟩
  | [], n => rfl
  | s :: ss, n => by
      have hall := (Stmt.emit_yields comments frame s n).followedBy
        (emitAll_yields comments frame ss (n + s.labelCount))
      simpa [emitAll, offencesAll, codeAll, labelCountAll, Nat.add_assoc] using hall

end

theorem emitPrologue_yields (o : RoutineOptions) (slotCount : Nat) (frame : Int) :
    (emitPrologue o slotCount frame).Yields {} [] (prologueCode o slotCount frame) {} := by
  have hsub : (if frame = 0 then nothing else Emit.instr .sub [.reg .rsp, .imm frame]).Yields {}
      [] (if frame = 0 then [] else [instr 0 .sub [.reg .rsp, .imm frame]]) {} := by
    by_cases h : frame = 0
    · rw [if_pos h, if_pos h]
      rfl
    · rw [if_neg h, if_neg h]
      rfl
  have hall := (line_yields .intelDirective {}).inOrder ((line_yields (.global o.entry) {}).inOrder
    ((label_yields o.entry 0).inOrder ((comment_yields o.comments
      s!"prologue: {slotCount} variables, {frame} byte frame" 0).inOrder
        ((instr_yields .push [.reg .rbp] {}).inOrder
          ((instr_yields .mov [.reg .rbp, .reg .rsp] {}).inOrder (hsub.inOrder
            ((instr_yields .mov [.reg .rcx, .imm 0] {}).inOrder (inOrder_nil {}))))))))
  exact hall

theorem emitPrologue_ok (o : RoutineOptions) (slotCount : Nat) (frame : Int) :
    emitPrologue o slotCount frame {} = .ok (prologueCode o slotCount frame, {}) :=
  (emitPrologue_yields o slotCount frame).ok

/-- The routine of a program is its code, or else the generator fails at the first offence. What a
program before left of the counters makes no difference. -/
theorem Generator.generate_eq (g : Generator) (p : Program) {frame : Int}
    (hframe : p.slots.frameSize? g.options.alignment = some frame) :
    (g.generate p).1 = firstOr (p.offences frame)
      ⟨p.code g.options frame, labelCountAll p.statements, frame⟩ := by
  have hcode := (emitPrologue_yields g.options p.slots.size frame).inOrder
    ((emitAll_yields g.options.comments frame p.statements 0).inOrder
      ((Yields.of_ok rfl : emitEpilogue.Yields _ [] epilogueCode _).inOrder (inOrder_nil _)))
  simp only [generate, Program.offences, hframe, ← List.head?_filter]
  cases p.slots.slots.filter (fun slot => frame < slot.offset) with
  | cons slot rest => rfl
  | nil =>
      cases hoffences : offencesAll frame p.statements with
      | nil =>
          rw [hoffences] at hcode
          simp [hcode.ok, firstOr, Program.code]
      | cons f fs =>
          rw [hoffences] at hcode
          obtain ⟨t, ht⟩ := hcode.error
          simp [ht, firstOr]

theorem Program.routine_eq (p : Program) {o : RoutineOptions} {frame : Int}
    (hframe : p.slots.frameSize? o.alignment = some frame) :
    p.routine o =
      firstOr (p.offences frame) ⟨p.code o frame, labelCountAll p.statements, frame⟩ :=
  Generator.generate_eq { options := o } p hframe

/-- A program whose slots lie in its frame has a routine, which consists of its code. -/
theorem Program.routine_ok {N : Int → Prop} {p : Program} {o : RoutineOptions} {frame : Int}
    (hframe : p.slots.frameSize? o.alignment = some frame)
    (hslots : ∀ slot ∈ p.slots.slots, slot.offset ≤ frame)
    (hall : AllStmts (VarRef.InFrame frame) N p.statements) :
    p.routine o = .ok ⟨p.code o frame, labelCountAll p.statements, frame⟩ := by
  have hnil : p.offences frame = [] :=
    offences_eq_nil_iff.mpr ⟨hslots, hall.mono (fun _ hr => hr) fun _ _ => trivial⟩
  rw [p.routine_eq hframe, hnil]
  rfl

/-- A program has no other routine. -/
theorem Program.exists_frame_of_routine {p : Program} {o : RoutineOptions} {r : Routine}
    (h : p.routine o = .ok r) :
    ∃ frame, p.slots.frameSize? o.alignment = some frame ∧ p.offences frame = [] ∧
      r = ⟨p.code o frame, labelCountAll p.statements, frame⟩ := by
  cases hframe : p.slots.frameSize? o.alignment with
  | none => simp [routine, Generator.generate, hframe] at h
  | some frame =>
      rw [p.routine_eq hframe] at h
      cases hoffences : p.offences frame with
      | cons f fs =>
          rw [hoffences] at h
          cases h
      | nil =>
          rw [hoffences] at h
          exact ⟨frame, rfl, hoffences, (Except.ok.inj h).symm⟩

end StackLang
