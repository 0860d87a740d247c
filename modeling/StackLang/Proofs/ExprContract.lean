import StackLang.Proofs.CodeLabels
import StackLang.Proofs.ExprRun
import StackLang.Proofs.Stepping

/-!
# Expressions anywhere

The code of an expression does what it should wherever it stands: in any listing that has its
instructions somewhere, from any state that is about to execute them, with any number of words
already on the stack. It needs nothing from the routine around it but room on the stack, and leaves
everything else as it was.
-/

namespace StackLang

/-! ## What an expression needs and changes -/

namespace Expr

/-- The most words that are on the stack for an expression at a time. -/
def depth : Expr → Nat
  | .number _ _ => 1
  | .var _ => 1
  | .binary _ _ a b => max a.depth (b.depth + 1)
  | .assign _ _ e => e.depth + 1
  | .bare _ => 0

/-- The variables that an expression assigns to. -/
def targets : Expr → List VarRef
  | .number _ _ => []
  | .var _ => []
  | .binary _ _ a b => a.targets ++ b.targets
  | .assign _ r e => r :: e.targets
  | .bare _ => []

variable {P : VarRef → Prop} {N : Int → Prop} {e : Expr}

theorem All.depth_pos (h : e.All P N) : 0 < e.depth := by
  induction e with
  | number _ _ => exact Nat.one_pos
  | var _ => exact Nat.one_pos
  | binary _ _ a b _ _ => exact lt_max_of_lt_right (Nat.succ_pos _)
  | assign _ _ _ _ => exact Nat.succ_pos _
  | bare _ => exact h.elim

theorem All.targets (h : e.All P N) : ∀ r ∈ e.targets, P r := by
  induction e with
  | number _ _ => simp [Expr.targets]
  | var _ => simp [Expr.targets]
  | binary _ _ a b iha ihb => exact List.forall_mem_append.mpr ⟨iha h.1, ihb h.2⟩
  | assign _ r e ih => exact List.forall_mem_cons.mpr ⟨h.1, ih h.2⟩
  | bare _ => exact h.elim

theorem All.codeSize_pos (h : e.All P N) (d : Nat) : 0 < codeSize (e.code d) := by
  cases e with
  | number _ value =>
      unfold Expr.code numberCode
      split <;> simp
  | var r => simp [Expr.code]
  | binary _ _ _ _ => simp [Expr.code]
  | assign _ _ _ => simp [Expr.code]
  | bare _ => exact h.elim

/-- What is not assigned to keeps its value. -/
theorem eval_spares {κ : Type} [DecidableEq κ] {key : VarRef → κ} {s s' : Store κ} {w : Word}
    (h : e.eval key s = .ok (w, s')) {x : κ} (hx : ∀ r ∈ e.targets, x ≠ key r) : s' x = s x := by
  induction e generalizing s s' w with
  | number _ _ =>
      cases h
      rfl
  | var _ =>
      cases h
      rfl
  | binary _ op a b iha ihb =>
      rw [eval] at h
      cases ha : a.eval key s with
      | error t =>
          rw [ha] at h
          cases h
      | ok us =>
          obtain ⟨u, s₁⟩ := us
          simp only [ha, bind, Except.bind] at h
          cases hb : b.eval key s₁ with
          | error t =>
              rw [hb] at h
              cases h
          | ok vs =>
              obtain ⟨v, s₂⟩ := vs
              simp only [hb] at h
              cases hop : op.eval u v with
              | error t =>
                  rw [hop] at h
                  cases h
              | ok y =>
                  rw [hop] at h
                  cases h
                  have hleft := iha ha fun r hr => hx r (List.mem_append_left _ hr)
                  have hright := ihb hb fun r hr => hx r (List.mem_append_right _ hr)
                  exact hright.trans hleft
  | assign _ target e ih =>
      rw [eval] at h
      cases he : e.eval key s with
      | error t =>
          rw [he] at h
          cases h
      | ok us =>
          obtain ⟨u, s₁⟩ := us
          rw [he] at h
          cases h
          rw [Store.set, if_neg (hx target List.mem_cons_self)]
          exact ih he fun r hr => hx r (List.mem_cons_of_mem _ hr)
  | bare _ => cases h

end Expr

theorem BinaryOp.deepest_code (op : BinaryOp) (d : Nat) : deepest (op.code d) = d := by
  cases op <;> simp [BinaryOp.code, compareCode]

/-- The room that the code of an expression needs is the room that the expression needs. -/
theorem Expr.All.deepest_code_le {P : VarRef → Prop} {N : Int → Prop} {e : Expr} (h : e.All P N)
    (d : Nat) : deepest (e.code d) ≤ d + e.depth := by
  induction e generalizing d with
  | number _ value =>
      unfold Expr.code numberCode
      split <;> simp
  | var r => simp [Expr.code, Expr.depth, VarRef.addressCode]
  | binary _ op a b iha ihb =>
      have hleft := iha h.1 d
      have hright := ihb h.2 (d + 1)
      have hpos := h.2.depth_pos
      simp only [Expr.code, Expr.depth, deepest_append, deepest_instr, deepest_nil,
        op.deepest_code]
      omega
  | assign _ r e ih =>
      have hvalue := ih h.2 (d + 1)
      have hpos := h.2.depth_pos
      simp only [Expr.code, Expr.depth, VarRef.addressCode, deepest_append, deepest_instr,
        deepest_nil]
      omega
  | bare _ => exact h.elim

/-! ## Blocks of a listing -/

/-- Instructions as code that nothing is known of. -/
def bareCode (instrs : List Instr) : List Emission :=
  instrs.map fun i => ⟨0, .instr i⟩

theorem instrsOf_bareCode (instrs : List Instr) : instrsOf (bareCode instrs) = instrs := by
  induction instrs with
  | nil => rfl
  | cons i instrs ih => exact congrArg (i :: ·) ih

theorem labelsOf_bareCode (instrs : List Instr) : labelsOf (bareCode instrs) = [] := by
  induction instrs with
  | nil => rfl
  | cons i instrs ih => exact ih

theorem deepest_bareCode (instrs : List Instr) : deepest (bareCode instrs) = 0 := by
  induction instrs with
  | nil => rfl
  | cons i instrs ih =>
      change max 0 (deepest (bareCode instrs)) = 0
      rw [ih]
      rfl

namespace Listing

variable {l : Listing} {i : Nat} {block : List Emission}

/-- The instructions of a listing. -/
def instrs (l : Listing) : List Instr :=
  l.instructions.toList.map PlacedInstr.instr

/-- The listing has the instructions from its `i`-th on. -/
def Contains (l : Listing) (i : Nat) (instrs : List Instr) : Prop :=
  instrs <+: l.instrs.drop i

/-- The listing starts with what is before the block and the block. -/
theorem Contains.loaded (h : l.Contains i (instrsOf block)) (hlabels : labelsOf block = []) :
    Loaded l (bareCode (l.instrs.take i) ++ block) where
  instr := by
    intro n ins hn
    have hall : instrsOf (bareCode (l.instrs.take i) ++ block) <+: l.instrs := by
      rw [instrsOf_append, instrsOf_bareCode]
      have hprefix := (List.prefix_append_right_inj (l.instrs.take i)).mpr h
      rwa [List.take_append_drop] at hprefix
    obtain ⟨rest, hrest⟩ := hall
    have hlt := (List.getElem?_eq_some_iff.mp hn).choose
    have hinstr : l.instrs[n]? = some ins := by
      rw [← hrest, List.getElem?_append_left hlt, hn]
    rw [instrs, List.getElem?_map, Option.map_eq_some_iff, Array.getElem?_toList] at hinstr
    exact hinstr
  label := by
    intro n name rest hs
    have hmem : name ∈ labelsOf (bareCode (l.instrs.take i) ++ block) :=
      List.mem_filterMap.mpr ⟨_, hs.mem, rfl⟩
    rw [labelsOf_append, labelsOf_bareCode, hlabels] at hmem
    cases hmem

theorem Contains.stands (h : l.Contains i (instrsOf block)) (hpos : 0 < codeSize block) :
    Stands (bareCode (l.instrs.take i) ++ block) i block := by
  refine ⟨bareCode (l.instrs.take i), [], by simp, ?_⟩
  have hlen := List.IsPrefix.length_le h
  rw [List.length_drop] at hlen
  rw [codeSize] at hpos
  rw [codeSize, instrsOf_bareCode, List.length_take]
  omega

end Listing

/-! ## The contract -/

namespace State

/-- The address of the variable at a distance below the frame pointer. -/
def slot (σ : State) (x : Int) : Word :=
  σ.registers.rbp - Word.ofInt x

/-- The variables by their distances. -/
def store (σ : State) : Store Int :=
  fun x => σ.memory.read (σ.slot x)

end State

namespace Expr

/-- What the code of an expression does to a state, if the expression has the value `w` and leaves
the variables as in `store`. -/
structure Leaves (e : Expr) (w : Word) (store : Store Int) (σ τ : State) : Prop where
  top : τ.registers.rsp = σ.registers.rsp - 8
  value : τ.memory.read τ.registers.rsp = w
  base : τ.registers.rbp = σ.registers.rbp
  last : τ.registers.rcx = σ.registers.rcx
  assigned : ∀ r ∈ e.targets, τ.memory.read (σ.slot r.offset) = store r.offset
  /-- Nothing else changes but the words below the stack pointer that the expression needs. -/
  spared : ∀ a, (∀ r ∈ e.targets, a ≠ σ.slot r.offset) →
    (∀ m : Nat, 1 ≤ m → m ≤ e.depth → a ≠ σ.registers.rsp - Word.ofInt (8 * m)) →
    τ.memory.read a = σ.memory.read a

/-- The stack as an expression finds it: `frame` bytes of variables and `k` words. -/
def activation (e : Expr) (frame k : Nat) (σ : State)
    (hroom : frame + 8 * (k + e.depth) < 2 ^ 64) : Activation where
  base := σ.registers.rbp
  size := frame
  depth := k + e.depth
  caller := []
  owns := VarRef.InFrame frame
  owns_inside := fun _ h => h
  size_nonneg := Int.natCast_nonneg frame
  fits := by
    rw [List.length_nil]
    omega

section

variable {e : Expr} {frame k i : Nat} {l : Listing} {σ : State}

theorem layout_activation (e : Expr) (k : Nat) (σ : State)
    (hroom : frame + 8 * (k + e.depth) < 2 ^ 64) :
    (e.activation frame k σ hroom).Layout VarRef.offset (VarRef.InFrame frame) where
  owned := fun _ h => h
  separate := fun _ _ _ _ => Iff.rfl

theorem hosts_activation {N : Int → Prop} (he : e.All (VarRef.InFrame frame) N)
    (hblock : l.Contains i (instrsOf (e.code k))) (σ : State)
    (hroom : frame + 8 * (k + e.depth) < 2 ^ 64) :
    (e.activation frame k σ hroom).Hosts l (bareCode (l.instrs.take i) ++ e.code k) where
  loaded := hblock.loaded (e.straight_code k).1
  deepest := by
    rw [deepest_append, deepest_bareCode, Nat.zero_max]
    exact he.deepest_code_le k

/-- A word of the evaluation stack, by its distance from the top. -/
theorem temp_activation (hroom : frame + 8 * (k + e.depth) < 2 ^ 64)
    (htop : σ.registers.rsp = σ.registers.rbp - Word.ofInt (frame + 8 * k)) (m : Nat) :
    (e.activation frame k σ hroom).temp (k + m) = σ.registers.rsp - Word.ofInt (8 * m) := by
  rw [htop]
  change _ = (e.activation frame k σ hroom).word (frame + 8 * k) - Word.ofInt (8 * m)
  rw [Activation.word_sub, Activation.temp]
  congr 1
  change (frame : Int) + 8 * ((k + m : Nat) : Int) = _
  push_cast
  ring

theorem at_activation (hpc : σ.pc = i) (hrun : σ.halted = false)
    (hroom : frame + 8 * (k + e.depth) < 2 ^ 64)
    (htop : σ.registers.rsp = σ.registers.rbp - Word.ofInt (frame + 8 * k)) :
    (e.activation frame k σ hroom).At i k σ where
  pc := hpc
  base := rfl
  top := htop
  running := hrun
  keeps := by
    intro n w hn
    cases hn

variable {N : Int → Prop} {code : List Emission} {τ : State} {w : Word} {store : Store Int}
  {n j : Nat}

/-- Words that are neither assigned to nor needed on the stack stay. Those of the variables do
because the expression leaves their values, the others because no step writes to them. -/
theorem read_of_yields (hroom : frame + 8 * (k + e.depth) < 2 ^ 64)
    (htop : σ.registers.rsp = σ.registers.rbp - Word.ofInt (frame + 8 * k))
    (heval : e.eval VarRef.offset σ.store = .ok (w, store))
    (h : (e.activation frame k σ hroom).Yields l code VarRef.offset (VarRef.InFrame frame) n σ τ j k
      w store) {a : Word} (htargets : ∀ r ∈ e.targets, a ≠ σ.slot r.offset)
    (htemps : ∀ m : Nat, 1 ≤ m → m ≤ e.depth → a ≠ σ.registers.rsp - Word.ofInt (8 * m)) :
    τ.memory.read a = σ.memory.read a := by
  by_cases hvar : ∃ r : VarRef, r.InFrame frame ∧ a = σ.slot r.offset
  · obtain ⟨r, hr, rfl⟩ := hvar
    have hkept : store r.offset = σ.store r.offset := by
      apply eval_spares heval
      intro target htarget heq
      exact htargets target htarget (by rw [heq])
    exact (h.holds r hr).trans hkept
  · apply h.spares
    · intro r hr heq
      exact hvar ⟨r, hr, heq⟩
    · intro m hlt hle heq
      obtain ⟨m, rfl⟩ := Nat.exists_eq_add_of_lt hlt
      rw [Nat.add_assoc, temp_activation hroom htop] at heq
      exact htemps (m + 1) (Nat.succ_pos m) (by change k + m + 1 ≤ k + e.depth at hle; omega) heq

theorem leaves_of_yields (he : e.All (VarRef.InFrame frame) N)
    (hroom : frame + 8 * (k + e.depth) < 2 ^ 64)
    (htop : σ.registers.rsp = σ.registers.rbp - Word.ofInt (frame + 8 * k))
    (heval : e.eval VarRef.offset σ.store = .ok (w, store))
    (h : (e.activation frame k σ hroom).Yields l code VarRef.offset (VarRef.InFrame frame) n σ τ j k
      w store) : e.Leaves w store σ τ where
  top := by
    rw [h.at_.top, temp_activation hroom htop]
    rfl
  value := by rw [h.at_.top, h.value]
  base := h.at_.base
  last := h.last
  assigned := fun r hr => h.holds r (he.targets r hr)
  spared := fun _ htargets htemps => read_of_yields hroom htop heval h htargets htemps

/-- Neither the flag of the state before nor the one of the state after matters. -/
theorem Leaves.mark {b c : Bool} (h : e.Leaves w store (σ.mark b) τ) :
    e.Leaves w store σ (τ.mark c) :=
  ⟨h.top, h.value, h.base, h.last, h.assigned, h.spared⟩

end

/-- Generation succeeds only for expressions whose variables are in the frame. -/
theorem all_of_emit {e : Expr} {frame : Int} {counters counters' : Counters}
    {block : List Emission} (h : e.emit frame counters = .ok (block, counters')) :
    e.All (VarRef.InFrame frame) (fun _ => True) ∧ block = e.code counters.depth := by
  obtain ⟨d, labels⟩ := counters
  have hyields := e.emit_yields frame d labels
  cases hoffences : e.offences frame with
  | nil =>
      rw [hoffences] at hyields
      rw [hyields.ok] at h
      cases h
      exact ⟨offences_eq_nil_iff.mp hoffences, rfl⟩
  | cons fault faults =>
      rw [hoffences] at hyields
      obtain ⟨_, hfails⟩ := hyields.error
      rw [hfails] at h
      cases h

/-- The code of an expression, wherever it stands in a listing and whatever the state is: it takes
as many steps as it has instructions and leaves the value, or stops at a division exactly if the
expression has no value. -/
theorem emit_contract {e : Expr} {frame k i : Nat} {counters counters' : Counters}
    {block : List Emission} {l : Listing} {σ : State}
    (hemit : e.emit frame counters = .ok (block, counters'))
    (hblock : l.Contains i (instrsOf block)) (hpc : σ.pc = i)
    (htop : σ.registers.rsp = σ.registers.rbp - Word.ofInt (frame + 8 * k))
    (hroom : frame + 8 * (k + e.depth) < 2 ^ 64) :
    (∃ w store τ, e.eval VarRef.offset σ.store = .ok (w, store) ∧
      l.stepFor (codeSize block) σ = .ok () τ ∧ τ.pc = i + codeSize block ∧
      e.Leaves w store σ τ) ∨
    (e.eval VarRef.offset σ.store = .error .division ∧
      ∃ fault τ, l.stepFor (codeSize block) σ = .error fault τ ∧
        (fault.cause = .divisionByZero ∨ fault.cause = .quotientRange)) := by
  obtain ⟨he, rfl⟩ := all_of_emit hemit
  have hsize : codeSize (e.code counters.depth) = codeSize (e.code k) := by
    rw [codeSize, codeSize, e.instrsOf_code counters.depth k]
  rw [e.instrsOf_code counters.depth k] at hblock
  rw [hsize]
  obtain ⟨n, hn⟩ := e.runs VarRef.offset he σ.store
  have hrun := hn (layout_activation e k (σ.mark false) hroom)
    (hosts_activation he hblock (σ.mark false) hroom) (hblock.stands (he.codeSize_pos k))
    (at_activation (σ := σ.mark false) hpc rfl hroom htop) (fun _ _ => rfl)
    (Nat.add_le_add_left he.depth_pos k)
  cases heval : e.eval VarRef.offset σ.store with
  | ok ws =>
      obtain ⟨w, store⟩ := ws
      rw [heval] at hrun
      obtain ⟨τ, hτ⟩ := hrun
      have hpcs : τ.pc = σ.pc + n := hτ.straight
      have hend : τ.pc = (i + codeSize (e.code k) : Nat) := hτ.at_.pc
      obtain rfl : n = codeSize (e.code k) := by omega
      refine Or.inl ⟨w, store, τ.mark σ.halted, rfl, ?_, ?_, ?_⟩
      · exact hτ.moves.stepFor_add hτ.at_.running σ.halted 0
      · exact hend.trans (Nat.cast_add _ _)
      · exact (leaves_of_yields (σ := σ.mark false) he hroom htop heval hτ).mark
  | error t =>
      rw [heval] at hrun
      obtain ⟨hstops, hlt⟩ := hrun
      cases t with
      | formless => exact hstops.elim
      | division =>
          obtain ⟨τ, cause, hmoves, -, hfails, hcause⟩ := hstops
          have hbefore : σ.pc + n < (i + codeSize (e.code k) : Nat) := hlt
          obtain ⟨p, υ, hυ⟩ := hmoves.stepFor_fails hfails σ.halted
            (show n < codeSize (e.code k) by omega)
          exact Or.inr ⟨rfl, _, υ, hυ, hcause⟩

/-- The expression `(x = 5) * (x - y)`, in which one operand reads what the other one assigns. -/
def straddling : Expr :=
  let here : Location := ⟨"<input>", 1, 1, 0⟩
  let x : VarRef := ⟨here, "x", 8⟩
  let y : VarRef := ⟨here, "y", 16⟩
  .binary here .mul (.assign here x (.number here 5)) (.binary here .sub (.var x) (.var y))

/-- The code of the expression between two other instructions. -/
def straddlingListing : Listing where
  instructions := ((Instr.mk .ret [] :: instrsOf (straddling.code 0) ++ [Instr.mk .cqo []]).map
    fun i => PlacedInstr.mk i 0 "").toArray

/-- A machine that has halted, with the variables at the upper end of the memory, where `y` is 3,
and one word on the stack. -/
def straddlingState : State where
  registers := { rbp := 0, rsp := -24 }
  memory := ({} : Memory).write (-16) 3
  pc := 1
  halted := true

theorem emit_contract_straddling :
    ∃ τ, straddlingListing.Contains 1 (instrsOf (straddling.code 0)) ∧
      straddlingListing.stepFor (codeSize (straddling.code 0)) straddlingState = .ok () τ ∧
      τ.registers.rsp = -32 ∧ τ.memory.read (-32) = 10 ∧
      τ.memory.read (straddlingState.slot 8) = 5 ∧ τ.memory.read (straddlingState.slot 16) = 3 := by
  have hcontains : straddlingListing.Contains 1 (instrsOf (straddling.code 0)) :=
    ⟨[⟨.cqo, []⟩], rfl⟩
  have hvalue : ((straddling.eval VarRef.offset straddlingState.store).toOption.map fun ws =>
      (ws.1, ws.2 8)) = some (10, 5) := by
    decide +kernel
  have hemit : straddling.emit (16 : Nat) {} = .ok (straddling.code 0, ⟨1, 0⟩) := rfl
  have htop : straddlingState.registers.rsp =
      straddlingState.registers.rbp - Word.ofInt ((16 : Nat) + 8 * (1 : Nat)) := by
    decide
  rcases emit_contract hemit hcontains rfl htop (by decide) with
    ⟨w, store, τ, heval, hsteps, -, h⟩ | ⟨heval, -⟩
  · rw [heval] at hvalue
    obtain ⟨rfl, hx⟩ := Prod.mk.inj (Option.some.inj hvalue)
    have hrsp : τ.registers.rsp = -32 := h.top
    refine ⟨τ, hcontains, hsteps, hrsp, ?_, ?_, ?_⟩
    · rw [← hrsp]
      exact h.value
    · exact (h.assigned ⟨⟨"<input>", 1, 1, 0⟩, "x", 8⟩ List.mem_cons_self).trans hx
    · refine (h.spared _ ?_ ?_).trans ?_
      · decide
      · decide
      · decide +kernel
  · rw [heval] at hvalue
    cases hvalue

end Expr

end StackLang
