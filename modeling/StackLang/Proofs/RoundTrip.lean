import StackLang.Proofs.CodeText
import StackLang.Proofs.Generation

/-!
# Routines read back

The text of a routine is a listing of the routine itself: its instructions in order, its name as
entry, and every label at the instruction that was emitted next after it. This holds of whatever
the generator makes a routine of, be it read from text or put together by hand.
-/

namespace StackLang

/-- The listing holds the code and nothing else. -/
structure Listing.Mirrors (l : Listing) (entry : String) (code : List Emission) : Prop where
  instrs : l.instructions.toList.map PlacedInstr.instr = instrsOf code
  entry : l.entry = some entry
  names : l.labels.entries.map Prod.fst = labelsOf code
  distinct : (labelsOf code).Nodup
  /-- A label stands for the number of instructions before it, where the next one is. -/
  place : ∀ before e after name, code = before ++ e :: after → e.line = .label name →
    l.labels.find? name = some (codeSize before : Int) ∧
      ∃ i, (instrsOf after).head? = some i ∧
        l.instructions[codeSize before]?.map PlacedInstr.instr = some i
  jumps : ∀ i ∈ instrsOf code, i.mnemonic.isJump = true →
    ∃ name, i.operands = [.label name] ∧ l.labels.contains name = true

/-! ## Label tables -/

theorem LabelTable.names_put {t : LabelTable} {name : String} (h : t.contains name = false)
    (index : Int) :
    (t.put name index).entries.map Prod.fst = t.entries.map Prod.fst ++ [name] := by
  simp [put, h]

theorem Listing.names_afterLine {l : Listing} {e : Emission} {rest : List Emission}
    (h : l.Fresh (e :: rest)) (number : Nat) :
    (l.afterLine number e.line).labels.entries.map Prod.fst =
      l.labels.entries.map Prod.fst ++ e.line.label?.toList := by
  cases hline : e.line with
  | label name => exact LabelTable.names_put (h.head hline).1 _
  | intelDirective | global name | comment text | instr i =>
      simp [Listing.afterLine, Line.label?]

/-- The labels of the code are added to the table in their order. -/
theorem Listing.names_afterCode {l : Listing} {code : List Emission} (h : l.Fresh code)
    (number : Nat) :
    (l.afterCode number code).labels.entries.map Prod.fst =
      l.labels.entries.map Prod.fst ++ labelsOf code := by
  induction code generalizing l number with
  | nil => simp [Listing.afterCode]
  | cons e code ih =>
      rw [Listing.afterCode, ih (h.tail number), Listing.names_afterLine h, labelsOf_cons,
        List.append_assoc]

/-! ## Jumps -/

theorem exists_line_of_mem_instrsOf {code : List Emission} {i : Instr} (h : i ∈ instrsOf code) :
    ∃ e ∈ code, e.line = .instr i := by
  obtain ⟨e, he, hi⟩ := List.mem_filterMap.mp h
  refine ⟨e, he, ?_⟩
  cases hline : e.line with
  | instr j =>
      rw [hline] at hi
      exact congrArg Line.instr (Option.some.inj hi)
  | intelDirective | global name | comment text | label name => simp [hline, Line.instr?] at hi

/-- A jump that can be read has a label and nothing else. -/
theorem Instr.Readable.operands_of_isJump {i : Instr} (h : i.Readable)
    (hjump : i.mnemonic.isJump = true) : ∃ name, i.operands = [.label name] := by
  have hcount : i.operands.length = 1 := by
    rw [h.count]
    cases hm : i.mnemonic <;> simp_all [Mnemonic.isJump, Mnemonic.operandCount]
  obtain ⟨op, hop⟩ := List.length_eq_one_iff.mp hcount
  have hread := h.operand op (by simp [hop])
  cases op with
  | label name => exact ⟨name, hop⟩
  | reg r | imm value | mem base d =>
      exact absurd (hjump.symm.trans hread.1) (by decide)

/-! ## Routines -/

theorem instrsOf_ne_nil_of_label {code before after : List Emission} {e : Emission} {name : String}
    {d : Nat} {m : Mnemonic} {ops : List Operand}
    (hcode : code.getLast? = some (Emission.instr d m ops))
    (hsplit : code = before ++ e :: after) (he : e.line = .label name) : instrsOf after ≠ [] := by
  intro hnil
  cases after using List.reverseRecOn with
  | nil =>
      rw [hsplit, List.getLast?_concat] at hcode
      rw [Option.some.inj hcode] at he
      cases he
  | append_singleton after last _ =>
      rw [hsplit, ← List.cons_append, ← List.append_assoc, List.getLast?_concat] at hcode
      rw [Option.some.inj hcode] at hnil
      simp at hnil

/-- Code that can be read again, and ends with an instruction, is mirrored by its listing. -/
theorem ReadableCode.mirrors {code : List Emission} (h : ReadableCode code) {d : Nat}
    {m : Mnemonic} {ops : List Operand} (hlast : code.getLast? = some (Emission.instr d m ops))
    {entry filename : String}
    (hentry : (Listing.afterCode { filename := filename } 1 code).entry = some entry) :
    (Listing.afterCode { filename := filename } 1 code).Mirrors entry code where
  instrs := by
    rw [Listing.instrs_afterCode]
    rfl
  entry := hentry
  names := Listing.names_afterCode (h.fresh filename) 1
  distinct := h.distinct
  place := by
    intro before e after name hsplit he
    subst hsplit
    have hfind := Listing.find?_label (h.fresh filename) he 1
    obtain ⟨i, rest, hrest⟩ :=
      List.exists_cons_of_ne_nil (instrsOf_ne_nil_of_label hlast rfl he)
    refine ⟨by simpa using hfind, i, by rw [hrest]; rfl, ?_⟩
    have hinstrs := Listing.instrs_afterCode { filename := filename } 1 (before ++ e :: after)
    have hskip : instrsOf (e :: after) = instrsOf after := by
      simp [instrsOf, he, Line.instr?]
    rw [← Array.getElem?_toList, ← List.getElem?_map, hinstrs]
    simp [hskip, hrest, codeSize]
  jumps := by
    intro i hi hjump
    obtain ⟨e, he, hline⟩ := exists_line_of_mem_instrsOf hi
    have hread : i.Readable := by
      have hline' := h.line e he
      rwa [hline] at hline'
    obtain ⟨name, hname⟩ := hread.operands_of_isJump hjump
    refine ⟨name, hname, Listing.contains_label (h.fresh filename) ?_ 1⟩
    exact h.defined i hi name (by simp [Instr.target?, hname])

theorem Program.getLast?_code (p : Program) (o : RoutineOptions) (frame : Int) :
    (p.code o frame).getLast? = some (Emission.instr 0 .ret) := by
  rw [Program.code, ← List.append_assoc, List.getLast?_append_of_ne_nil _ (by simp [epilogueCode])]
  rfl

/-- What the generator emits is read back exactly. Numbers that are too long to be read are
excluded: those of the program, its offsets, and the size of the frame, which is written as well. -/
theorem Program.read_routine_exact {p : Program} {o : RoutineOptions} {r : Routine}
    (hr : p.routine o = .ok r) (hentry : EntryName o.entry)
    (hnumbers : AllStmts VarRef.ShortOffset FewDigits p.statements) (hframe : FewDigits r.frame)
    (filename : String) :
    ∃ l, Listing.read r.text filename = .ok l ∧ l.Mirrors o.entry r.code := by
  obtain ⟨frame, -, -, rfl⟩ := Program.exists_frame_of_routine hr
  have hcode := p.readableCode hentry hframe hnumbers
  exact ⟨_, hcode.read_text _ _ filename, hcode.mirrors (p.getLast?_code o frame)
    (p.entry_afterCode o frame filename)⟩

/-- A program that no text yields: its number is no word, and its slot is not a multiple of eight. -/
def handBuilt : Program :=
  let here : Location := ⟨"<ast>", 1, 1, 0⟩
  let x : VarRef := ⟨here, "x", 5⟩
  { location := here
    statements := [.while_ here (.number here (10 ^ 40))
      (.ifElse here (.var x) (.ret here (.assign here x (.number here (-3)))) (.block here []))]
    slots := ⟨[⟨"x", 5⟩]⟩ }

theorem Program.read_routine_exact_handBuilt :
    ∃ r l, handBuilt.routine ⟨"_start.1", true, 12⟩ = .ok r ∧ r.frame = 12 ∧
      Listing.read r.text = .ok l ∧ l.Mirrors "_start.1" r.code ∧
      l.labels.entries.map Prod.fst =
        ["_start.1", ".Lbegin0", ".Lelse1", ".Lend1", ".Lend0", ".Lreturn"] := by
  have hr : handBuilt.routine ⟨"_start.1", true, 12⟩ =
      .ok ⟨handBuilt.code ⟨"_start.1", true, 12⟩ 12, 2, 12⟩ := rfl
  have hnumbers : AllStmts VarRef.ShortOffset FewDigits handBuilt.statements := by
    simp only [handBuilt, AllStmts, Stmt.All, Expr.All, VarRef.ShortOffset]
    decide
  obtain ⟨l, hl, hmirrors⟩ := Program.read_routine_exact hr
    (EntryName.of_head (by decide) (by decide)) hnumbers (by decide) "<listing>"
  exact ⟨_, l, hr, rfl, hl, hmirrors, hmirrors.names.trans (by decide)⟩

end StackLang
