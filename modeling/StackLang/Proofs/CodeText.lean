import StackLang.Proofs.CodeLabels

/-!
# The text of routines

Every line of a routine can be written down and read again, if the numbers of the program and its
offsets are not too long.
-/

namespace StackLang

open Text

instance (value : Int) : Decidable (FewDigits value) :=
  inferInstanceAs (Decidable (_ ≤ _))

instance (m : Mnemonic) : (op : Operand) → Decidable (op.Readable m)
  | .label _ => inferInstanceAs (Decidable (_ ∧ _))
  | .reg _ => inferInstanceAs (Decidable (_ ∧ _))
  | .imm _ => inferInstanceAs (Decidable (_ ∧ _))
  | .mem _ _ => inferInstanceAs (Decidable (_ ∧ _))

instance (i : Instr) : Decidable i.Readable :=
  decidable_of_iff (i.mnemonic ∈ Mnemonic.known ∧ i.operands.length = i.mnemonic.operandCount ∧
      (∀ op ∈ i.operands, op.Readable i.mnemonic) ∧
      Listing.operandFault? i.mnemonic i.operands = none)
    ⟨fun h => ⟨h.1, h.2.1, h.2.2.1, h.2.2.2⟩, fun h => ⟨h.known, h.count, h.operand, h.sound⟩⟩

/-- All lines of the code can be written and read. -/
def LinesReadable (code : List Emission) : Prop :=
  ∀ e ∈ code, e.line.Readable

section

variable {d : Nat} {m : Mnemonic} {ops : List Operand} {name : String} {a b rest : List Emission}

@[simp] theorem linesReadable_nil : LinesReadable [] := by
  simp [LinesReadable]

@[simp] theorem linesReadable_append :
    LinesReadable (a ++ b) ↔ LinesReadable a ∧ LinesReadable b :=
  List.forall_mem_append

@[simp] theorem linesReadable_instr :
    LinesReadable (Emission.instr d m ops :: rest) ↔
      (Instr.mk m ops).Readable ∧ LinesReadable rest :=
  List.forall_mem_cons

@[simp] theorem linesReadable_label :
    LinesReadable (Emission.label name :: rest) ↔
      Listing.isLabelName name.toList = true ∧ LinesReadable rest :=
  List.forall_mem_cons

theorem linesReadable_remark {text : String} (h : text.toList.any isLineEnd = false)
    (comments : Bool) : LinesReadable (remark comments text) := by
  intro e he
  cases comments with
  | false => exact absurd he (by simp [remark])
  | true =>
      obtain rfl : e = ⟨0, .comment text⟩ := by simpa [remark] using he
      exact fun c hc => Bool.eq_false_iff.mpr (List.any_eq_false.mp h c hc)

end

/-- The offset of the variable is not too long to be read. -/
def VarRef.ShortOffset (r : VarRef) : Prop :=
  FewDigits r.offset

/-! ## Expressions -/

theorem readable_immediate {value : Int} (h : FewDigits value) {r : Register}
    (hr : r ∈ Register.known) {m : Mnemonic} (hm : m = .mov ∨ m = .sub) :
    (Instr.mk m [.reg r, .imm value]).Readable where
  known := by rcases hm with rfl | rfl <;> simp [Mnemonic.known]
  count := by rcases hm with rfl | rfl <;> rfl
  operand := by rcases hm with rfl | rfl <;> simp [Operand.Readable, Mnemonic.isJump, hr, h]
  sound := by rcases hm with rfl | rfl <;> simp [Listing.operandFault?, Operand.isMem]

theorem numberCode_readable {value : Int} (h : FewDigits value) (d : Nat) :
    LinesReadable (numberCode value d) := by
  unfold numberCode
  by_cases hfits : fitsImmediate value = true
  · have hpush : (Instr.mk .push [.imm value]).Readable :=
      { known := (by decide : Mnemonic.push ∈ Mnemonic.known)
        count := rfl
        operand := by simp [Operand.Readable, Mnemonic.isJump, h]
        sound := by simp [Listing.operandFault?, Operand.isMem, hfits] }
    simpa [hfits] using hpush
  · rw [if_neg hfits, linesReadable_instr, linesReadable_instr]
    exact ⟨readable_immediate h (by decide) (Or.inl rfl), by decide, linesReadable_nil⟩

theorem VarRef.addressCode_readable {r : VarRef} (h : r.ShortOffset) (d : Nat) :
    LinesReadable (r.addressCode d) := by
  have hneg : FewDigits (-r.offset) := by
    rw [FewDigits, Int.natAbs_neg]
    exact h
  have hlea : (Instr.mk .lea [.reg .rax, .mem .rbp (-r.offset)]).Readable :=
    { known := (by decide : Mnemonic.lea ∈ Mnemonic.known)
      count := rfl
      operand := by simp [Operand.Readable, Mnemonic.isJump, Register.known, hneg]
      sound := by simp [Listing.operandFault?, Operand.isMem] }
  simp only [VarRef.addressCode, linesReadable_instr, linesReadable_nil]
  exact ⟨hlea, by decide, trivial⟩

theorem BinaryOp.code_readable (op : BinaryOp) (d : Nat) : LinesReadable (op.code d) := by
  cases op <;>
    simp only [BinaryOp.code, compareCode, linesReadable_instr, linesReadable_nil] <;> decide

/-- Short numbers and offsets are all that the code of an expression needs to be readable. -/
theorem Expr.code_readable {e : Expr} (h : e.All VarRef.ShortOffset FewDigits)
    (d : Nat) : LinesReadable (e.code d) := by
  induction e generalizing d with
  | number l value => exact numberCode_readable h d
  | var r =>
      simp only [Expr.code, linesReadable_append, linesReadable_instr, linesReadable_nil]
      exact ⟨VarRef.addressCode_readable h d, by decide⟩
  | binary l op a b iha ihb =>
      simp only [Expr.code, linesReadable_append, linesReadable_instr, linesReadable_nil]
      exact ⟨iha h.1 d, ihb h.2 (d + 1), by decide, op.code_readable d, by decide⟩
  | assign l r e ih =>
      simp only [Expr.code, linesReadable_append, linesReadable_instr, linesReadable_nil]
      exact ⟨VarRef.addressCode_readable h.1 d, ih h.2 (d + 1), by decide⟩
  | bare l => exact h.elim

/-! ## Statements -/

theorem readable_jump {name : String} (h : Listing.isLabelName name.toList = true) {m : Mnemonic}
    (hm : m = .jmp ∨ m = .je) : (Instr.mk m [.label name]).Readable := by
  rcases hm with rfl | rfl
  · exact ⟨(by decide : Mnemonic.jmp ∈ Mnemonic.known), rfl,
      by simpa [Operand.Readable, Mnemonic.isJump] using h, rfl⟩
  · exact ⟨(by decide : Mnemonic.je ∈ Mnemonic.known), rfl,
      by simpa [Operand.Readable, Mnemonic.isJump] using h, rfl⟩

theorem isLabelName_returnLabel : Listing.isLabelName returnLabel.toList = true := by
  decide

theorem conditionCode_readable {e : Expr}
    (h : e.All VarRef.ShortOffset FewDigits) {target : String}
    (ht : Listing.isLabelName target.toList = true) : LinesReadable (conditionCode e target) := by
  simp only [conditionCode, linesReadable_append, linesReadable_instr, linesReadable_nil]
  exact ⟨Expr.code_readable h 0, by decide, by decide, readable_jump ht (Or.inr rfl), trivial⟩

theorem discardedCode_readable {e : Expr}
    (h : e.All VarRef.ShortOffset FewDigits) : LinesReadable (discardedCode e) := by
  simp only [discardedCode, linesReadable_append, linesReadable_instr, linesReadable_nil]
  exact ⟨Expr.code_readable h 0, by decide⟩

theorem clauseCode_readable {clause : Option Expr}
    (h : ClauseAll VarRef.ShortOffset FewDigits clause) {body : Expr → List Emission}
    (hbody : ∀ {e : Expr}, e.All VarRef.ShortOffset FewDigits →
      LinesReadable (body e)) :
    LinesReadable (clauseCode clause body) := by
  cases clause with
  | none => exact linesReadable_nil
  | some e => exact hbody h

theorem loopCode_readable {test update : Option Expr}
    {testRemark updateRemark body : List Emission}
    (ht : ClauseAll VarRef.ShortOffset FewDigits test)
    (hu : ClauseAll VarRef.ShortOffset FewDigits update)
    (htr : LinesReadable testRemark) (hur : LinesReadable updateRemark)
    (hbody : LinesReadable body) (n : Nat) :
    LinesReadable (loopCode test testRemark update updateRemark n body) := by
  have hstart := LabelKind.isLabelName_text .start n
  have hfinish := LabelKind.isLabelName_text .finish n
  simp only [loopCode, linesReadable_append, linesReadable_instr, linesReadable_label,
    linesReadable_nil]
  refine ⟨hstart, clauseCode_readable ht fun he => ?_, hbody, clauseCode_readable hu fun he => ?_,
    readable_jump hstart (Or.inl rfl), hfinish, trivial⟩
  · exact linesReadable_append.mpr ⟨htr, conditionCode_readable he hfinish⟩
  · exact linesReadable_append.mpr ⟨hur, discardedCode_readable he⟩

mutual

theorem Stmt.code_readable (comments : Bool) :
    ∀ {s : Stmt}, s.All VarRef.ShortOffset FewDigits → ∀ n,
      LinesReadable (s.code comments n)
  | .expr _ e, h, n => by
      simp only [Stmt.code, linesReadable_append, linesReadable_instr, linesReadable_nil]
      exact ⟨Expr.code_readable h 0, by decide⟩
  | .ret _ e, h, n => by
      simp only [Stmt.code, linesReadable_append, linesReadable_instr, linesReadable_nil]
      exact ⟨linesReadable_remark (by decide) _, Expr.code_readable h 0, by decide,
        readable_jump isLabelName_returnLabel (Or.inl rfl), trivial⟩
  | .ifThen _ c a, h, n => by
      have hfinish := LabelKind.isLabelName_text .finish n
      simp only [Stmt.code, linesReadable_append, linesReadable_label, linesReadable_nil]
      exact ⟨linesReadable_remark (by decide) _, conditionCode_readable h.1 hfinish,
        Stmt.code_readable comments h.2 (n + 1), hfinish, trivial⟩
  | .ifElse _ c a b, h, n => by
      have hfinish := LabelKind.isLabelName_text .finish n
      have hotherwise := LabelKind.isLabelName_text .otherwise n
      simp only [Stmt.code, linesReadable_append, linesReadable_instr, linesReadable_label,
        linesReadable_nil]
      exact ⟨linesReadable_remark (by decide) _, conditionCode_readable h.1 hotherwise,
        Stmt.code_readable comments h.2.1 (n + 1), readable_jump hfinish (Or.inl rfl), hotherwise,
        Stmt.code_readable comments h.2.2 (n + 1 + a.labelCount), hfinish, trivial⟩
  | .while_ _ c a, h, n => by
      have htest : ClauseAll VarRef.ShortOffset FewDigits (some c) := h.1
      have hupdate : ClauseAll VarRef.ShortOffset FewDigits none := trivial
      exact loopCode_readable htest hupdate (linesReadable_remark (by decide) _) linesReadable_nil
        (Stmt.code_readable comments h.2 (n + 1)) n
  | .for_ _ i c u a, h, n => by
      rw [Stmt.code, linesReadable_append]
      refine ⟨clauseCode_readable h.1 fun he => ?_, ?_⟩
      · exact linesReadable_append.mpr ⟨linesReadable_remark (by decide) _,
          discardedCode_readable he⟩
      · exact loopCode_readable h.2.1 h.2.2.1 (linesReadable_remark (by decide) _)
          (linesReadable_remark (by decide) _) (Stmt.code_readable comments h.2.2.2 (n + 1)) n
  | .block _ ss, h, n => codeAll_readable comments h n
  | .bare _, h, _ => h.elim

theorem codeAll_readable (comments : Bool) :
    ∀ {ss : List Stmt}, AllStmts VarRef.ShortOffset FewDigits ss → ∀ n,
      LinesReadable (codeAll comments ss n)
  | [], _, _ => linesReadable_nil
  | s :: ss, h, n => by
      rw [codeAll, linesReadable_append]
      exact ⟨Stmt.code_readable comments h.1 n, codeAll_readable comments h.2 _⟩

end

/-! ## Routines -/

theorem isLineEnd_number (value : Int) :
    (signText value ++ value.natAbs.repr.toList).any isLineEnd = false := by
  have hframed := framed_of_isPlain
    (List.append_ne_nil_of_right_ne_nil (signText value) (repr_ne_nil value.natAbs))
    fun c hc => (number_chars value c hc).2.1
  refine List.any_eq_false.mpr fun c hc => ?_
  exact Bool.eq_false_iff.mp (hframed.not_mark hc).2.2

theorem prologue_remark (slotCount : Nat) (frame : Int) :
    (s!"prologue: {slotCount} variables, {frame} byte frame").toList.any isLineEnd = false := by
  have htext : (s!"prologue: {slotCount} variables, {frame} byte frame").toList =
      "prologue: ".toList ++ (signText slotCount ++ (slotCount : Int).natAbs.repr.toList) ++
        " variables, ".toList ++ (signText frame ++ frame.natAbs.repr.toList) ++
          " byte frame".toList := by
    rw [← toList_toString_int, ← toList_toString_int]
    simp only [← String.toList_append]
    rfl
  rw [htext, List.any_append, List.any_append, List.any_append, List.any_append,
    isLineEnd_number, isLineEnd_number]
  decide

theorem prologueCode_readable {o : RoutineOptions}
    (h : Listing.isLabelName o.entry.toList = true) (slotCount : Nat) {frame : Int}
    (hframe : FewDigits frame) : LinesReadable (prologueCode o slotCount frame) := by
  have hreserve : (Instr.mk .sub [.reg .rsp, .imm frame]).Readable :=
    readable_immediate hframe (by decide) (Or.inr rfl)
  have hhead : LinesReadable [⟨0, .intelDirective⟩, ⟨0, .global o.entry⟩,
      Emission.label o.entry] := by
    intro e he
    simp only [List.mem_cons, List.not_mem_nil, or_false] at he
    rcases he with rfl | rfl | rfl
    · trivial
    · exact h
    · exact h
  simp only [prologueCode, linesReadable_append, linesReadable_instr, linesReadable_nil]
  refine ⟨hhead, linesReadable_remark (prologue_remark slotCount frame) _, by decide, ?_, by decide⟩
  by_cases hzero : frame = 0
  · simp [hzero]
  · simpa [hzero] using hreserve

/-- The code of a program with short numbers can be written down and read again. -/
theorem Program.readableCode {p : Program} {o : RoutineOptions} (hentry : EntryName o.entry)
    {frame : Int} (hframe : FewDigits frame)
    (hall : AllStmts VarRef.ShortOffset FewDigits p.statements) :
    ReadableCode (p.code o frame) where
  ne_nil := by simp [Program.code, prologueCode]
  line := by
    have hepilogue : LinesReadable epilogueCode := by
      simp only [epilogueCode, linesReadable_instr, linesReadable_label, linesReadable_nil]
      decide
    exact linesReadable_append.mpr ⟨prologueCode_readable hentry.legal _ hframe,
      linesReadable_append.mpr ⟨codeAll_readable o.comments hall 0, hepilogue⟩⟩
  distinct := p.nodup_labelsOf_code hentry frame
  defined := by
    intro i hi name hname
    exact p.targetsOf_code_subset o frame name (List.mem_filterMap.mpr ⟨i, hi, hname⟩)

/-- The listing of a routine starts with it. -/
theorem Program.entry_afterCode (p : Program) (o : RoutineOptions) (frame : Int)
    (filename : String) :
    (Listing.afterCode { filename := filename } 1 (p.code o frame)).entry = some o.entry :=
  Listing.entry_afterCode (l := { filename := filename, entry := some o.entry }) rfl 3 _

end StackLang
