import StackLang.Proofs.Generation
import StackLang.Proofs.Nodes

/-!
# The first offence

A generator fails exactly on the programs that hold an offence: a slot of the table beyond the
frame, a variable outside it, or a node without a form. It reports the first one, the slots of the
table before the nodes. Neither its own checks of the evaluation stack nor what an earlier program
left of its counters ever show.
-/

namespace StackLang

/-- What no code can be made of at the node itself, its parts aside. -/
def Node.offence? (frame : Int) : Node → Option GenerationFault
  | .expr (.var r) => if r.offset ≤ 0 ∨ frame < r.offset then some (.outside frame r) else none
  | .expr (.bare l) => some (.unsupportedExpression l)
  | .stmt (.bare l) => some (.unsupportedStatement l)
  | _ => none

/-- The first offence of a program: among the slots in the order of the table, and then among the
nodes in the order of the code. -/
def Program.firstOffence? (p : Program) (frame : Int) : Option GenerationFault :=
  ((p.slots.slots.find? fun slot => frame < slot.offset).map (.uncovered frame)).or
    (p.nodes.findSome? (Node.offence? frame))

/-- The checks of the evaluation stack. -/
def GenerationFault.OfDepth : GenerationFault → Prop
  | .emptyStack _ | .unbalancedExpression _ _ _ | .unbalancedStatement _ _ _ _ => True
  | _ => False

/-! ## Offences node by node -/

section

variable (frame : Int)

theorem VarRef.offences_eq_filterMap (r : VarRef) :
    r.offences frame = [Node.expr (.var r)].filterMap (Node.offence? frame) := by
  by_cases h : 0 < r.offset ∧ r.offset ≤ frame
  · have hin : ¬ (r.offset ≤ 0 ∨ frame < r.offset) := by omega
    simp [VarRef.offences, Node.offence?, h, hin]
  · have hout : r.offset ≤ 0 ∨ frame < r.offset := by omega
    simp [VarRef.offences, Node.offence?, h, hout]

theorem Expr.offences_eq_filterMap (e : Expr) :
    e.offences frame = e.nodes.filterMap (Node.offence? frame) := by
  induction e with
  | number l value => rfl
  | var r => exact r.offences_eq_filterMap frame
  | binary l op a b iha ihb =>
      rw [Expr.offences, iha, ihb, ← List.filterMap_append, nodes, nodes, ← List.map_append]
      rfl
  | assign l r a ih =>
      rw [Expr.offences, r.offences_eq_filterMap, ih, ← List.filterMap_append]
      rfl
  | bare l => rfl

theorem clauseOffences_eq_filterMap (clause : Option Expr) :
    clauseOffences frame clause = (clauseNodes clause).filterMap (Node.offence? frame) := by
  cases clause with
  | none => rfl
  | some e => exact e.offences_eq_filterMap frame

mutual

theorem Stmt.offences_eq_filterMap :
    ∀ s : Stmt, s.offences frame = s.nodes.filterMap (Node.offence? frame)
  | .expr _ e | .ret _ e => e.offences_eq_filterMap frame
  | .ifThen _ c a => by
      rw [Stmt.offences, c.offences_eq_filterMap, Stmt.offences_eq_filterMap a,
        ← List.filterMap_append]
      rfl
  | .ifElse _ c a b => by
      rw [Stmt.offences, c.offences_eq_filterMap, Stmt.offences_eq_filterMap a,
        Stmt.offences_eq_filterMap b, ← List.filterMap_append, ← List.filterMap_append]
      rfl
  | .while_ _ c a => by
      rw [Stmt.offences, c.offences_eq_filterMap, Stmt.offences_eq_filterMap a,
        ← List.filterMap_append]
      rfl
  | .for_ _ i c u a => by
      rw [Stmt.offences, clauseOffences_eq_filterMap, clauseOffences_eq_filterMap,
        clauseOffences_eq_filterMap, Stmt.offences_eq_filterMap a, ← List.filterMap_append,
        ← List.filterMap_append, ← List.filterMap_append]
      rfl
  | .block _ ss => offencesAll_eq_filterMap ss
  | .bare _ => rfl

theorem offencesAll_eq_filterMap :
    ∀ ss : List Stmt, offencesAll frame ss = (nodesAll ss).filterMap (Node.offence? frame)
  | [] => rfl
  | s :: ss => by
      rw [offencesAll, Stmt.offences_eq_filterMap s, offencesAll_eq_filterMap ss,
        ← List.filterMap_append, nodesAll]

end

theorem Program.head?_offences (p : Program) :
    (p.offences frame).head? = p.firstOffence? frame := by
  rw [Program.offences, List.head?_append, List.head?_map, List.head?_filter,
    offencesAll_eq_filterMap, List.head?_filterMap]
  rfl

end

variable {frame : Int} {f : GenerationFault}

theorem firstOr_eq_error_iff {α : Type} {faults : List GenerationFault} {a : α} :
    firstOr faults a = .error f ↔ faults.head? = some f := by
  cases faults with
  | nil => simp [firstOr]
  | cons g gs => simp [firstOr]

theorem Node.offence?_isSome_iff {node : Node} :
    (node.offence? frame).isSome ↔
      (∃ r, node = .expr (.var r) ∧ (r.offset ≤ 0 ∨ frame < r.offset)) ∨
        ∃ l, node = .expr (.bare l) ∨ node = .stmt (.bare l) := by
  unfold Node.offence?
  split <;> simp_all

theorem Program.firstOffence?_isSome_iff {p : Program} :
    (p.firstOffence? frame).isSome ↔ (∃ slot ∈ p.slots.slots, frame < slot.offset) ∨
      (∃ r, .expr (.var r) ∈ p.nodes ∧ (r.offset ≤ 0 ∨ frame < r.offset)) ∨
        ∃ l, .expr (.bare l) ∈ p.nodes ∨ .stmt (.bare l) ∈ p.nodes := by
  rw [firstOffence?, Option.isSome_or, Bool.or_eq_true, Option.isSome_map, List.find?_isSome,
    List.findSome?_isSome_iff]
  simp only [decide_eq_true_eq, Node.offence?_isSome_iff]
  refine or_congr_right ⟨?_, ?_⟩
  · rintro ⟨node, hmem, ⟨r, rfl, hr⟩ | ⟨l, rfl | rfl⟩⟩
    · exact .inl ⟨r, hmem, hr⟩
    · exact .inr ⟨l, .inl hmem⟩
    · exact .inr ⟨l, .inr hmem⟩
  · rintro (⟨r, hmem, hr⟩ | ⟨l, hmem | hmem⟩)
    · exact ⟨_, hmem, .inl ⟨r, rfl, hr⟩⟩
    · exact ⟨_, hmem, .inr ⟨l, .inl rfl⟩⟩
    · exact ⟨_, hmem, .inr ⟨l, .inr rfl⟩⟩

theorem Node.not_ofDepth_of_offence? {node : Node} (h : node.offence? frame = some f) :
    ¬ f.OfDepth := by
  unfold Node.offence? at h
  split at h
  · rw [Option.ite_none_right_eq_some] at h
    cases h.2
    exact id
  · cases h
    exact id
  · cases h
    exact id
  · cases h

theorem Program.not_ofDepth_of_firstOffence? {p : Program} (h : p.firstOffence? frame = some f) :
    ¬ f.OfDepth := by
  rw [firstOffence?, Option.or_eq_some_iff, Option.map_eq_some_iff] at h
  obtain ⟨slot, -, rfl⟩ | ⟨-, hnode⟩ := h
  · exact id
  · obtain ⟨node, -, hnode⟩ := List.exists_of_findSome?_eq_some hnode
    exact Node.not_ofDepth_of_offence? hnode

/-! ## The generator -/

namespace Generator

theorem generate_eq_error_iff {g : Generator} {p : Program}
    (hframe : p.slots.frameSize? g.options.alignment = some frame) :
    (g.generate p).1 = .error f ↔ p.firstOffence? frame = some f := by
  rw [g.generate_eq p hframe, firstOr_eq_error_iff, p.head?_offences]

/-- Whatever a generator was used for before, it fails on a program exactly if a slot of the table
lies beyond the frame, a variable or target lies outside it, or a node has no form. The fault is
that of the first such offence, and never one of the evaluation stack. -/
theorem generate_fails_first (g : Generator) (p : Program) (halign : g.options.alignment ≠ 0) :
    ∃ frame, p.slots.frameSize? g.options.alignment = some frame ∧
      ((∃ f, (g.generate p).1 = .error f) ↔
        (∃ slot ∈ p.slots.slots, frame < slot.offset) ∨
        (∃ r, .expr (.var r) ∈ p.nodes ∧ (r.offset ≤ 0 ∨ frame < r.offset)) ∨
        ∃ l, .expr (.bare l) ∈ p.nodes ∨ .stmt (.bare l) ∈ p.nodes) ∧
      (∀ f, (g.generate p).1 = .error f ↔ p.firstOffence? frame = some f) ∧
      ∀ f, (g.generate p).1 = .error f → ¬ f.OfDepth := by
  refine ⟨_, if_neg halign, ?_, fun f => ?_, fun f h => ?_⟩
  · rw [← Program.firstOffence?_isSome_iff, Option.isSome_iff_exists]
    exact exists_congr fun f => generate_eq_error_iff (if_neg halign)
  · exact generate_eq_error_iff (if_neg halign)
  · exact Program.not_ofDepth_of_firstOffence? ((generate_eq_error_iff (if_neg halign)).mp h)

/-- A sum whose second operand has no form: the generator fails with the first one on the
evaluation stack. -/
def halfSum : Program :=
  let l : Location := ⟨"<input>", 1, 1, 0⟩
  ⟨l, [.expr l (.binary l .add (.number l 1) (.bare l))], {}⟩

/-- A loop whose update has no form and whose body assigns, without a form again, to a variable
outside the frame. -/
def strayLoop : Program :=
  let l : Location := ⟨"<input>", 1, 1, 0⟩
  ⟨l, [.for_ l none none (some (.bare l)) (.expr l (.assign l ⟨l, "x", 24⟩ (.bare l)))],
    ⟨[⟨"x", 8⟩]⟩⟩

/-- After the sum, the target in the body is the first offence of the loop. -/
theorem generate_fails_first_strayLoop :
    (generate {} halfSum).2.counters.depth = 1 ∧
      ((generate {} halfSum).2.generate strayLoop).1 =
        .error (.outside 16 ⟨⟨"<input>", 1, 1, 0⟩, "x", 24⟩) := by
  obtain ⟨frame, hframe, -, hfirst, -⟩ :=
    generate_fails_first (generate {} halfSum).2 strayLoop (by decide)
  refine ⟨by decide, (hfirst _).mpr ?_⟩
  have hsixteen : frame = 16 := (Option.some.inj hframe).symm.trans (by decide)
  rw [hsixteen]
  rfl

end Generator

end StackLang
