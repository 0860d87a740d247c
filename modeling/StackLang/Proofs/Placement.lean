import StackLang.Assembly.Listing
import StackLang.Proofs.Code

/-!
# Blocks of code

Where a block stands in a larger piece of code. Positions count instructions only, since nothing
else of a routine is left in a listing.
-/

namespace StackLang

def Line.instr? : Line → Option Instr
  | .instr i => some i
  | _ => none

def instrsOf (code : List Emission) : List Instr :=
  code.filterMap fun e => e.line.instr?

/-- The number of instructions in some code. -/
def codeSize (code : List Emission) : Nat :=
  (instrsOf code).length

/-- The instruction at a position, with its depth. -/
def instrAt? (code : List Emission) (i : Nat) : Option Emission :=
  (code.filter fun e => e.line.instr?.isSome)[i]?

/-- The greatest number of values on the evaluation stack. -/
def deepest (code : List Emission) : Nat :=
  (code.map Emission.depth).foldr max 0

@[simp] theorem instrsOf_append (a b : List Emission) :
    instrsOf (a ++ b) = instrsOf a ++ instrsOf b :=
  List.filterMap_append

@[simp] theorem instrsOf_instr (d : Nat) (m : Mnemonic) (ops : List Operand)
    (rest : List Emission) :
    instrsOf (Emission.instr d m ops :: rest) = ⟨m, ops⟩ :: instrsOf rest := rfl

@[simp] theorem instrsOf_label (name : String) (rest : List Emission) :
    instrsOf (Emission.label name :: rest) = instrsOf rest := rfl

@[simp] theorem instrsOf_nil : instrsOf [] = [] := rfl

@[simp] theorem instrsOf_remark (comments : Bool) (text : String) :
    instrsOf (remark comments text) = [] := by
  cases comments <;> rfl

@[simp] theorem codeSize_nil : codeSize [] = 0 := rfl

@[simp] theorem codeSize_append (a b : List Emission) :
    codeSize (a ++ b) = codeSize a + codeSize b := by
  simp [codeSize]

@[simp] theorem codeSize_instr (d : Nat) (m : Mnemonic) (ops : List Operand)
    (rest : List Emission) : codeSize (Emission.instr d m ops :: rest) = codeSize rest + 1 := rfl

@[simp] theorem codeSize_label (name : String) (rest : List Emission) :
    codeSize (Emission.label name :: rest) = codeSize rest := rfl

@[simp] theorem codeSize_remark (comments : Bool) (text : String) :
    codeSize (remark comments text) = 0 := by
  simp [codeSize]

theorem codeSize_eq_length (code : List Emission) :
    codeSize code = (code.filter fun e => e.line.instr?.isSome).length := by
  unfold codeSize instrsOf
  rw [List.length_filterMap_eq_countP, List.countP_eq_length_filter]

theorem instrAt?_append_left {a b : List Emission} {k : Nat} (h : k < codeSize a) :
    instrAt? (a ++ b) k = instrAt? a k := by
  rw [codeSize_eq_length] at h
  rw [instrAt?, instrAt?, List.filter_append, List.getElem?_append_left h]

theorem instrAt?_append_right (a b : List Emission) (k : Nat) :
    instrAt? (a ++ b) (codeSize a + k) = instrAt? b k := by
  rw [codeSize_eq_length, instrAt?, instrAt?, List.filter_append,
    List.getElem?_append_right (Nat.le_add_right _ _), Nat.add_sub_cancel_left]

theorem le_deepest {code : List Emission} {e : Emission} (h : e ∈ code) :
    e.depth ≤ deepest code := by
  induction code with
  | nil => cases h
  | cons first rest ih =>
      simp only [deepest, List.map_cons, List.foldr_cons]
      rcases List.mem_cons.mp h with rfl | hrest
      · exact le_max_left _ _
      · exact (ih hrest).trans (le_max_right _ _)

@[simp] theorem deepest_nil : deepest [] = 0 := rfl

@[simp] theorem deepest_instr (d : Nat) (m : Mnemonic) (ops : List Operand)
    (rest : List Emission) : deepest (Emission.instr d m ops :: rest) = max d (deepest rest) := rfl

@[simp] theorem deepest_append (a b : List Emission) :
    deepest (a ++ b) = max (deepest a) (deepest b) := by
  induction a with
  | nil => exact (Nat.zero_max _).symm
  | cons e a ih =>
      change max e.depth (deepest (a ++ b)) = max (max e.depth (deepest a)) (deepest b)
      rw [ih, max_assoc]

/-! ## Depths

The instructions of an expression are the same at every depth. -/

theorem instrsOf_numberCode (value : Int) (d d' : Nat) :
    instrsOf (numberCode value d) = instrsOf (numberCode value d') := by
  unfold numberCode
  split <;> rfl

theorem BinaryOp.instrsOf_code (op : BinaryOp) (d d' : Nat) :
    instrsOf (op.code d) = instrsOf (op.code d') := by
  cases op <;> rfl

theorem Expr.instrsOf_code (e : Expr) (d d' : Nat) :
    instrsOf (e.code d) = instrsOf (e.code d') := by
  induction e generalizing d d' with
  | number l value => exact instrsOf_numberCode value d d'
  | var r => rfl
  | binary l op a b iha ihb =>
      simp only [Expr.code, instrsOf_append, iha d d', ihb (d + 1) (d' + 1), op.instrsOf_code d d']
      rfl
  | assign l r e ih =>
      simp only [Expr.code, instrsOf_append, ih (d + 1) (d' + 1)]
      rfl
  | bare l => rfl

/-! ## Places -/

/-- The block stands in the code, after `i` instructions. -/
def Stands (code : List Emission) (i : Nat) (block : List Emission) : Prop :=
  ∃ before after, code = before ++ (block ++ after) ∧ codeSize before = i

namespace Stands

variable {code a b : List Emission} {i d : Nat} {m : Mnemonic} {ops : List Operand} {name : String}

theorem self (code : List Emission) : Stands code 0 code :=
  ⟨[], [], by simp, rfl⟩

theorem left (h : Stands code i (a ++ b)) : Stands code i a := by
  obtain ⟨before, after, rfl, rfl⟩ := h
  exact ⟨before, b ++ after, by simp, rfl⟩

theorem right (h : Stands code i (a ++ b)) : Stands code (i + codeSize a) b := by
  obtain ⟨before, after, rfl, rfl⟩ := h
  exact ⟨before ++ a, after, by simp, by simp⟩

theorem next (h : Stands code i (Emission.instr d m ops :: b)) : Stands code (i + 1) b :=
  right (a := [Emission.instr d m ops]) h

theorem pastLabel (h : Stands code i (Emission.label name :: b)) : Stands code i b :=
  right (a := [Emission.label name]) h

theorem pastRemark {comments : Bool} {text : String}
    (h : Stands code i (remark comments text ++ b)) : Stands code i b := by
  simpa using h.right

theorem mem {e : Emission} (h : Stands code i (e :: b)) : e ∈ code := by
  obtain ⟨before, after, rfl, -⟩ := h
  simp

theorem depth_le {e : Emission} (h : Stands code i (e :: b)) : e.depth ≤ deepest code :=
  le_deepest h.mem

theorem instrsOf_eq (h : Stands code i (Emission.instr d m ops :: b)) :
    (instrsOf code)[i]? = some ⟨m, ops⟩ := by
  obtain ⟨before, after, rfl, rfl⟩ := h
  simp [codeSize]

theorem instrAt?_eq (h : Stands code i (Emission.instr d m ops :: b)) :
    instrAt? code i = some (Emission.instr d m ops) := by
  obtain ⟨before, after, rfl, rfl⟩ := h
  exact instrAt?_append_right before _ 0

end Stands

/-! ## Code in listings -/

/-- The code is what the listing starts with, and its labels name the places they stand at. -/
structure Loaded (l : Listing) (code : List Emission) : Prop where
  instr : ∀ (i : Nat) (ins : Instr), (instrsOf code)[i]? = some ins →
    ∃ p, l.instructions[i]? = some p ∧ p.instr = ins
  label : ∀ (i : Nat) (name : String) (rest : List Emission),
    Stands code i (Emission.label name :: rest) → l.labels.find? name = some (i : Int)

namespace Loaded

variable {l : Listing} {code rest : List Emission} {i d : Nat} {m : Mnemonic} {ops : List Operand}

theorem fetch (hl : Loaded l code) (h : Stands code i (Emission.instr d m ops :: rest)) :
    (i : Int) < l.instructions.size ∧ ∃ p, l.fetch? i = some p ∧ p.instr = ⟨m, ops⟩ := by
  obtain ⟨p, hp, hi⟩ := hl.instr i _ h.instrsOf_eq
  have hlt := (Array.getElem?_eq_some_iff.mp hp).choose
  refine ⟨by omega, p, ?_, hi⟩
  simp [Listing.fetch?, hp]

end Loaded

end StackLang
