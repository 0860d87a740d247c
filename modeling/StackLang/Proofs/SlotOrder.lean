import StackLang.Proofs.Interruption
import StackLang.Proofs.Lookahead
import StackLang.Proofs.Source

/-!
# The order of slots

A name is given its slot when the cursor first passes it, so at any time the table lists the names
of the tokens that were read, by first appearance. The tree is built in another order and its slots
are fixed early, but slots once given stay: all uses of a name have the slot of the final table.
-/

namespace StackLang

/-! ## Tables by first appearance -/

namespace SlotTable

/-- The slots of names that appear one after the other. -/
def inOrder (names : List String) : List Slot :=
  names.eraseDups.mapIdx fun i name => ⟨name, 8 * (i + 1)⟩

theorem names_inOrder (names : List String) : (inOrder names).map Slot.name = names.eraseDups := by
  apply List.ext_getElem?
  intro i
  rw [inOrder, List.getElem?_map, List.getElem?_mapIdx, Option.map_map]
  exact Option.map_id'

theorem eraseDups_concat (names : List String) (name : String) :
    (names ++ [name]).eraseDups =
      if name ∈ names then names.eraseDups else names.eraseDups ++ [name] := by
  rw [List.eraseDups_append]
  by_cases h : name ∈ names <;> simp [List.removeAll, List.eraseDups_cons, h]

theorem inOrder_concat (names : List String) (name : String) :
    inOrder (names ++ [name]) =
      if name ∈ names then inOrder names
      else inOrder names ++ [⟨name, 8 * (names.eraseDups.length + 1)⟩] := by
  unfold inOrder
  rw [eraseDups_concat]
  by_cases h : name ∈ names
  · rw [if_pos h, if_pos h]
  · rw [if_neg h, if_neg h, List.mapIdx_concat]

/-- Names that are declared one after the other have their slots by first appearance. -/
theorem slots_declareAll (names : List String) :
    (({} : SlotTable).declareAll names).slots = inOrder names := by
  induction names using List.reverseRecOn with
  | nil => rfl
  | append_singleton names name ih =>
      have hsize : (({} : SlotTable).declareAll names).size = names.eraseDups.length := by
        rw [size, ih, ← List.length_map Slot.name, names_inOrder]
      rw [declareAll_append, inOrder_concat, declareAll_cons, declareAll_nil]
      by_cases h : name ∈ names
      · obtain ⟨slot, hslot⟩ := Option.isSome_iff_exists.mp (isSome_find?_declareAll h {})
        rw [declare_of_some hslot, if_pos h]
        exact ih
      · have hnone : (({} : SlotTable).declareAll names).find? name = none := by
          rw [find?, List.find?_eq_none, ih]
          intro slot hslot heq
          have hname : slot.name ∈ names.eraseDups := by
            rw [← names_inOrder]
            exact List.mem_map_of_mem hslot
          rw [beq_iff_eq.mp heq] at hname
          exact h (List.mem_eraseDups.mp hname)
        rw [declare_of_none hnone, if_neg h, hsize, ih]
        simp only [wordSize, List.append_cancel_left_eq, List.cons.injEq, and_true, Slot.mk.injEq,
          true_and]
        ring

end SlotTable

/-! ## Uses of variables -/

/-- The uses of variables in an expression. -/
def Expr.refs : Expr → List VarRef
  | .number _ _ => []
  | .var r => [r]
  | .binary _ _ a b => a.refs ++ b.refs
  | .assign _ r e => r :: e.refs
  | .bare _ => []

def clauseRefs : Option Expr → List VarRef
  | none => []
  | some e => e.refs

mutual

def Stmt.refs : Stmt → List VarRef
  | .expr _ e | .ret _ e => e.refs
  | .ifThen _ c a => c.refs ++ a.refs
  | .ifElse _ c a b => c.refs ++ (a.refs ++ b.refs)
  | .while_ _ c a => c.refs ++ a.refs
  | .for_ _ i c u a => clauseRefs i ++ (clauseRefs c ++ (clauseRefs u ++ a.refs))
  | .block _ ss => refsAll ss
  | .bare _ => []

def refsAll : List Stmt → List VarRef
  | [] => []
  | s :: ss => s.refs ++ refsAll ss

end

def Program.refs (p : Program) : List VarRef :=
  refsAll p.statements

section

variable {P : VarRef → Prop} {N : Int → Prop}

theorem Expr.All.refs {e : Expr} (h : e.All P N) : ∀ r ∈ e.refs, P r := by
  induction e with
  | number l value => simp [Expr.refs]
  | var r => simpa [Expr.refs, Expr.All] using h
  | binary l op a b iha ihb => exact List.forall_mem_append.mpr ⟨iha h.1, ihb h.2⟩
  | assign l r e ih => exact List.forall_mem_cons.mpr ⟨h.1, ih h.2⟩
  | bare l => exact h.elim

theorem ClauseAll.refs {clause : Option Expr} (h : ClauseAll P N clause) :
    ∀ r ∈ clauseRefs clause, P r := by
  cases clause with
  | none => simp [clauseRefs]
  | some e => exact Expr.All.refs h

mutual

theorem Stmt.All.refs : ∀ {s : Stmt}, s.All P N → ∀ r ∈ s.refs, P r
  | .expr _ _, h => Expr.All.refs h
  | .ret _ _, h => Expr.All.refs h
  | .ifThen _ _ _, h => List.forall_mem_append.mpr ⟨Expr.All.refs h.1, Stmt.All.refs h.2⟩
  | .ifElse _ _ _ _, h => List.forall_mem_append.mpr ⟨Expr.All.refs h.1,
      List.forall_mem_append.mpr ⟨Stmt.All.refs h.2.1, Stmt.All.refs h.2.2⟩⟩
  | .while_ _ _ _, h => List.forall_mem_append.mpr ⟨Expr.All.refs h.1, Stmt.All.refs h.2⟩
  | .for_ _ _ _ _ _, h => List.forall_mem_append.mpr ⟨ClauseAll.refs h.1,
      List.forall_mem_append.mpr ⟨ClauseAll.refs h.2.1,
        List.forall_mem_append.mpr ⟨ClauseAll.refs h.2.2.1, Stmt.All.refs h.2.2.2⟩⟩⟩
  | .block _ _, h => AllStmts.refs h
  | .bare _, h => h.elim

theorem AllStmts.refs : ∀ {ss : List Stmt}, AllStmts P N ss → ∀ r ∈ refsAll ss, P r
  | [], _ => fun _ hr => by cases hr
  | _ :: _, h => List.forall_mem_append.mpr ⟨Stmt.All.refs h.1, AllStmts.refs h.2⟩

end

end

/-! ## Reading -/

namespace Cursor

/-- Whether it succeeds or fails, the reader has read the tokens before its cursor. -/
theorem parseProgram_reads {c : Cursor} (hc : c.Closed) (filename : String) :
    ∃ ts, Reads c (endCursor (c.parseProgram filename)) ts := by
  cases h : c.parseProgram filename with
  | ok p c' =>
      obtain ⟨⟨ts, hr, -⟩, -⟩ := parseProgram_sound hc h
      exact ⟨ts, hr⟩
  | error fault c' =>
      obtain ⟨ts, -, -, hr, -⟩ := Parse.program_viable c.nestingBound filename hc h
      exact ⟨ts, hr⟩

theorem not_isEnd_of_parseProgram {c c' : Cursor} {filename : String} {p : Program}
    {ts : List Token} (hc : c.Closed) (h : c.parseProgram filename = .ok p c')
    (hr : Reads c c' ts) : c'.current.isEnd = true ∧ ∀ t ∈ ts, t.isEnd = false := by
  obtain ⟨⟨us, hus, hd⟩, hend, -⟩ := parseProgram_sound hc h
  have heq : ts = us := List.append_cancel_right (hr.rest.symm.trans hus.rest)
  rw [heq]
  exact ⟨hend, Grammar.not_isEnd_of_not_mem hd.sentence.not_mem_end⟩

/-- Wherever the reader stops, after a program or at a fault, the table lists the names of the
tokens before the cursor by first appearance. After a program, all of whose tokens come before the
first end of the input, every use of a variable has the slot of its name, so that uses share a slot
exactly if they share a name. -/
theorem parseProgram_slots (filename : String) (body : List Token) (last : Token)
    (hlast : last.isEnd = true) :
    ∃ c k, ofTokens? (body ++ [last]) = some c ∧ k < (body ++ [last]).length ∧
      (endCursor (c.parseProgram filename)).rest = (body ++ [last]).drop k ∧
      (endCursor (c.parseProgram filename)).slots.slots =
        SlotTable.inOrder (namesOf ((body ++ [last]).take k)) ∧
      ∀ p c', c.parseProgram filename = .ok p c' →
        c'.current.isEnd = true ∧ (∀ t ∈ (body ++ [last]).take k, t.isEnd = false) ∧
        p.slots = c'.slots ∧ (∀ r ∈ p.refs, p.slots.find? r.name = some ⟨r.name, r.offset⟩) ∧
        ∀ r ∈ p.refs, ∀ r' ∈ p.refs, r.offset = r'.offset ↔ r.name = r'.name := by
  obtain ⟨c, hc, hrest, hslots, hclosed⟩ := ofTokens?_closed body hlast
  obtain ⟨ts, hr⟩ := parseProgram_reads hclosed filename
  have htokens : body ++ [last] = ts ++ (endCursor (c.parseProgram filename)).rest :=
    hrest.symm.trans hr.rest
  refine ⟨c, ts.length, hc, ?_, ?_, ?_, fun p c' h => ?_⟩
  · rw [htokens, List.length_append]
    exact Nat.lt_add_of_pos_right (Nat.succ_pos _)
  · rw [htokens, List.drop_left]
  · rw [htokens, List.take_left, hr.slots, hslots, SlotTable.slots_declareAll]
  · rw [htokens, List.take_left]
    rw [h] at hr
    obtain ⟨hend, hno⟩ := not_isEnd_of_parseProgram hclosed h hr
    obtain ⟨-, -, -, -, hps⟩ := parseProgram_sound hclosed h
    obtain ⟨hseq, hall⟩ := parseProgram_places (N := fun _ => True) hc h trivial
      fun _ _ _ _ => trivial
    have hplaces := AllStmts.refs hall
    exact ⟨hend, hno, hps, hplaces, fun r hr r' hr' =>
      hseq.offset_eq_iff (hplaces r hr) (hplaces r' hr')⟩

/-- The tokens of `y > x;`, then an end of the input and a name behind it. -/
def exchangedOperands : List Token :=
  [.identifier "y", .symbol .gt ">", .identifier "x", .symbol .semicolon ";", .endOfInput,
    .identifier "z"].map fun l => ⟨l, ⟨"<input>", 1, 1, 0⟩⟩

/-- The operands change places in the tree and keep their slots; the name behind the end has
none. -/
theorem parseProgram_slots_exchangedOperands :
    ∃ c p c', ofTokens? (exchangedOperands ++ [⟨.endOfInput, ⟨"<input>", 1, 1, 0⟩⟩]) = some c ∧
      c.parseProgram "<input>" = .ok p c' ∧ p.slots.slots = [⟨"y", 8⟩, ⟨"x", 16⟩] ∧
      p.refs.map VarRef.name = ["x", "y"] ∧
      ∀ r ∈ p.refs, p.slots.find? r.name = some ⟨r.name, r.offset⟩ := by
  obtain ⟨c, k, hc, hk, hrest, hslots, hok⟩ := parseProgram_slots "<input>" exchangedOperands
    ⟨.endOfInput, ⟨"<input>", 1, 1, 0⟩⟩ rfl
  have hcheck : ((ofTokens? (exchangedOperands ++
      [⟨.endOfInput, ⟨"<input>", 1, 1, 0⟩⟩])).any fun c =>
      match c.parseProgram "<input>" with
      | .ok p c' => p.refs.map VarRef.name = ["x", "y"] ∧ c'.rest.length = 3
      | .error _ _ => false) = true := by
    decide +kernel
  rw [hc, Option.any_some] at hcheck
  cases hrun : c.parseProgram "<input>" with
  | error fault c' =>
      rw [hrun] at hcheck
      cases hcheck
  | ok p c' =>
      rw [hrun] at hcheck hrest hslots
      obtain ⟨hnames, hlength⟩ := of_decide_eq_true hcheck
      obtain ⟨-, -, hps, hplaces, -⟩ := hok p c' hrun
      have hfour : k = 4 := by
        have hlen := congrArg List.length hrest
        rw [endCursor, hlength, List.length_drop] at hlen
        simp only [exchangedOperands, List.length_append, List.length_map, List.length_cons,
          List.length_nil] at hlen
        omega
      subst hfour
      refine ⟨c, p, c', hc, hrun, ?_, hnames, hplaces⟩
      rw [hps]
      exact hslots

end Cursor

end StackLang
