import StackLang.Machine.Unbounded
import StackLang.Proofs.Effects
import StackLang.Proofs.IntegerBits

/-!
# Masks

On the machine with unbounded integers every number that an instruction stores went through a mask,
so what is in registers and memory stays within 64 bits, whatever the instructions are and whether
they succeed or fail. The one number stored as it is, the stack pointer of a run, is gone before the
first instruction.
-/

namespace StackLang.Unbounded

open Bits StackLang.Exec

/-- The integer is one of 64 bits. -/
def IsWord (n : Int) : Prop :=
  0 ≤ n ∧ n < 2 ^ 64

theorem isWord_and_mask64 (n : Int) : IsWord (Bits.and n mask64) := by
  rw [and_mask64]
  exact ⟨Int.emod_nonneg n (by decide), Int.emod_lt_of_pos n (by decide)⟩

theorem isWord_mask64 : IsWord mask64 := by
  unfold IsWord
  decide

theorem isWord_zero : IsWord 0 := by
  unfold IsWord
  decide

/-- A low byte is put into a word. -/
theorem isWord_withLowByte (n value : Int) :
    IsWord (Bits.or (Bits.and (Bits.and n (~~~lowByte)) mask64) (Bits.and value lowByte)) := by
  obtain ⟨hlow, hhigh⟩ := isWord_and_mask64 (Bits.and n (~~~lowByte))
  obtain ⟨a, ha⟩ := Int.eq_ofNat_of_zero_le hlow
  have hbyte : 0 ≤ Bits.and value lowByte ∧ Bits.and value lowByte < 2 ^ 64 := by
    rw [and_lowByte]
    omega
  obtain ⟨b, hb⟩ := Int.eq_ofNat_of_zero_le hbyte.1
  rw [ha] at hhigh
  rw [hb] at hbyte
  rw [ha, hb]
  change IsWord ((a ||| b : Nat) : Int)
  have hor : a ||| b < 2 ^ 64 :=
    Nat.or_lt_two_pow (by exact_mod_cast hhigh) (by exact_mod_cast hbyte.2)
  exact ⟨Int.natCast_nonneg _, by exact_mod_cast hor⟩

/-! ## Register files -/

namespace Registers

variable {r : Registers} {name : String} {value : Int}

theorem mem_of_mem_set {e : String × Int} (h : e ∈ r.set name value) :
    e ∈ r ∨ e = (name, value) := by
  unfold set at h
  split at h
  · obtain ⟨e', he', rfl⟩ := List.mem_map.mp h
    split
    · exact Or.inr rfl
    · exact Or.inl he'
  · rcases List.mem_append.mp h with h | h
    · exact Or.inl h
    · exact Or.inr (List.mem_singleton.mp h)

theorem any_name : (r.any fun e => e.1 == name) = true ↔ name ∈ r.map Prod.fst := by
  rw [List.any_eq_true, List.mem_map]
  simp only [beq_iff_eq]

/-- A name that is new comes last. -/
theorem names_set (r : Registers) (name : String) (value : Int) :
    (r.set name value).map Prod.fst =
      if name ∈ r.map Prod.fst then r.map Prod.fst else r.map Prod.fst ++ [name] := by
  unfold set
  simp only [any_name]
  split
  · rw [List.map_map]
    refine List.map_congr_left fun e _ => ?_
    by_cases he : e.1 = name <;> simp [he]
  · rw [List.map_append]
    rfl

end Registers

/-! ## States -/

/-- Registers and memory hold numbers of 64 bits, and the registers of the machine are all there,
each of them once. -/
structure State.Masked (s : State) : Prop where
  register : ∀ e ∈ s.registers, IsWord e.2
  address : ∀ e ∈ s.memory.toList, IsWord e.1
  word : ∀ e ∈ s.memory.toList, IsWord e.2
  present : ∀ name ∈ Registers.initial.map Prod.fst, name ∈ s.registers.map Prod.fst
  once : (s.registers.map Prod.fst).Nodup

namespace State.Masked

variable {s : State}

theorem store (h : s.Masked) (name : String) {value : Int} (hvalue : IsWord value) :
    State.Masked { s with registers := s.registers.set name value } where
  register := by
    intro e he
    rcases Registers.mem_of_mem_set he with he | rfl
    · exact h.register e he
    · exact hvalue
  address := h.address
  word := h.word
  present := by
    intro n hn
    rw [Registers.names_set]
    split
    · exact h.present n hn
    · exact List.mem_append_left _ (h.present n hn)
  once := by
    rw [Registers.names_set]
    split
    · exact h.once
    · next hnew =>
        refine List.nodup_append.mpr ⟨h.once, List.nodup_singleton _, fun a ha b hb => ?_⟩
        rintro rfl
        exact hnew (List.mem_singleton.mp hb ▸ ha)

theorem insert (h : s.Masked) {a v : Int} (ha : IsWord a) (hv : IsWord v) :
    State.Masked { s with memory := s.memory.insert a v } := by
  have hentry : ∀ e ∈ (s.memory.insert a v).toList, e = (a, v) ∨ e ∈ s.memory.toList := by
    rintro ⟨b, w⟩ he
    rw [Std.TreeMap.mem_toList_iff_getElem?_eq_some, Std.TreeMap.getElem?_insert] at he
    split at he
    · next hab =>
      rw [← Std.LawfulEqCmp.eq_of_compare hab, ← Option.some.inj he]
      exact Or.inl rfl
    · exact Or.inr (Std.TreeMap.mem_toList_iff_getElem?_eq_some.mpr he)
  refine ⟨h.register, fun e he => ?_, fun e he => ?_, h.present, h.once⟩
  · rcases hentry e he with rfl | he
    · exact ha
    · exact h.address e he
  · rcases hentry e he with rfl | he
    · exact hv
    · exact h.word e he

/-- Only registers and memory count. -/
theorem congr {t : State} (h : s.Masked) (hr : t.registers = s.registers)
    (hm : t.memory = s.memory) : t.Masked where
  register := hr ▸ h.register
  address := hm ▸ h.address
  word := hm ▸ h.word
  present := hr ▸ h.present
  once := hr ▸ h.once

end State.Masked

theorem State.masked_initial : ({} : State).Masked where
  register := by
    intro e he
    have hzero : ∀ e ∈ Registers.initial, e.2 = 0 := by decide
    rw [hzero e he]
    exact isWord_zero
  address := fun e he => absurd (show e ∈ ([] : List (Int × Int)) from he) List.not_mem_nil
  word := fun e he => absurd (show e ∈ ([] : List (Int × Int)) from he) List.not_mem_nil
  present := fun _ hname => hname
  once := by decide

/-! ## Instructions -/

namespace Exec

theorem fetch_maintains {I : State → Prop} (name : String) : Maintains I (fetch name) := by
  refine maintains_get.bind fun s => ?_
  split
  · exact maintains_pure _
  · exact maintains_throw _

theorem store_maintains (name : String) {value : Int} (h : IsWord value) :
    Maintains State.Masked (store name value) :=
  maintains_modify fun _ hs => hs.store name h

theorem readRegister_maintains {I : State → Prop} (name : String) :
    Maintains I (readRegister name) := by
  unfold readRegister
  split
  · exact (fetch_maintains _).bind fun _ => maintains_pure _
  · exact fetch_maintains _

theorem writeRegister_maintains (name : String) (value : Int) :
    Maintains State.Masked (writeRegister name value) := by
  unfold writeRegister
  split
  · exact (fetch_maintains _).bind fun _ => store_maintains _ (isWord_withLowByte _ _)
  · exact store_maintains _ (isWord_and_mask64 _)

theorem readMemory_maintains {I : State → Prop} (a : Int) : Maintains I (readMemory a) :=
  maintains_get.bind fun _ => maintains_pure _

theorem writeMemory_maintains (a value : Int) : Maintains State.Masked (writeMemory a value) :=
  maintains_modify fun _ hs => hs.insert (isWord_and_mask64 _) (isWord_and_mask64 _)

theorem address_maintains {I : State → Prop} (base : Register) (displacement : Int) :
    Maintains I (address base displacement) :=
  (readRegister_maintains _).bind fun _ => maintains_pure _

theorem readOperand_maintains {I : State → Prop} (o : Operand) : Maintains I (readOperand o) := by
  cases o with
  | reg r => exact readRegister_maintains _
  | imm value => exact maintains_pure _
  | mem base d => exact (address_maintains base d).bind fun _ => readMemory_maintains _
  | label name => exact maintains_throw _

theorem writeOperand_maintains (o : Operand) (value : Int) :
    Maintains State.Masked (writeOperand o value) := by
  cases o with
  | reg r => exact writeRegister_maintains _ _
  | mem base d => exact (address_maintains base d).bind fun _ => writeMemory_maintains _ _
  | imm value => exact maintains_throw _
  | label name => exact maintains_throw _

theorem push_maintains (value : Int) : Maintains State.Masked (push value) :=
  (fetch_maintains _).bind fun _ => (store_maintains _ (isWord_and_mask64 _)).bind fun _ =>
    (fetch_maintains _).bind fun _ => writeMemory_maintains _ _

theorem pop_maintains : Maintains State.Masked pop :=
  (fetch_maintains _).bind fun _ => (readMemory_maintains _).bind fun _ =>
    (fetch_maintains _).bind fun _ => (store_maintains _ (isWord_and_mask64 _)).bind fun _ =>
      maintains_pure _

theorem arithmetic_maintains (operation : Int → Int → Int) (left right : Operand) :
    Maintains State.Masked (arithmetic operation left right) :=
  (readOperand_maintains left).bind fun _ => (readOperand_maintains right).bind fun _ =>
    (maintains_modify fun _ hs => hs.congr rfl rfl).bind fun _ => maintains_pure _

theorem multiply_maintains (left right : Operand) :
    Maintains State.Masked (multiply left right) :=
  (readOperand_maintains left).bind fun _ => (readOperand_maintains right).bind fun _ =>
    (writeOperand_maintains _ _).bind fun _ => maintains_modify fun _ hs => hs.congr rfl rfl

theorem extendSign_maintains : Maintains State.Masked extendSign := by
  refine (fetch_maintains _).bind fun value => store_maintains _ ?_
  split
  · exact isWord_mask64
  · exact isWord_zero

theorem divide_maintains (value : Int) : Maintains State.Masked (divide value) := by
  unfold divide
  dsimp only
  split
  · exact maintains_throw_bind _ _
  · refine (fetch_maintains _).bind fun high => (fetch_maintains _).bind fun low => ?_
    split
    · exact maintains_throw_bind _ _
    · exact (store_maintains _ (isWord_and_mask64 _)).bind fun _ =>
        store_maintains _ (isWord_and_mask64 _)

theorem jump_maintains (labels : LabelTable) (target : Operand) :
    Maintains State.Masked (jump labels target) := by
  unfold jump
  split
  · split
    · exact maintains_modify fun _ hs => hs.congr rfl rfl
    · exact maintains_throw _
  · exact maintains_throw _

theorem returnFromRoutine_maintains : Maintains State.Masked returnFromRoutine := by
  refine pop_maintains.bind fun address => ?_
  split
  · exact maintains_modify fun _ hs => hs.congr rfl rfl
  · exact maintains_throw _

theorem setIf_maintains (o : Operand) (condition : Flags → Bool) :
    Maintains State.Masked (setIf o condition) :=
  maintains_get.bind fun _ => writeOperand_maintains _ _

theorem instr_maintains (labels : LabelTable) (i : Instr) :
    Maintains State.Masked (instr labels i) := by
  unfold instr
  split
  case h_1 => exact (readOperand_maintains _).bind push_maintains
  case h_2 => exact pop_maintains.bind (writeOperand_maintains _)
  case h_3 => exact (readOperand_maintains _).bind (writeOperand_maintains _)
  case h_4 =>
    split
    · exact (address_maintains _ _).bind (writeOperand_maintains _)
    · exact maintains_throw _
  case h_5 => exact (readOperand_maintains _).bind fun _ => writeOperand_maintains _ _
  case h_6 => exact (arithmetic_maintains _ _ _).bind (writeOperand_maintains _)
  case h_7 => exact (arithmetic_maintains _ _ _).bind (writeOperand_maintains _)
  case h_8 => exact (arithmetic_maintains _ _ _).bind fun _ => maintains_pure _
  case h_9 => exact multiply_maintains _ _
  case h_10 => exact (readOperand_maintains _).bind fun _ => maintains_throw _
  case h_11 => exact extendSign_maintains
  case h_12 => exact (readOperand_maintains _).bind divide_maintains
  case h_13 => exact setIf_maintains _ _
  case h_14 => exact setIf_maintains _ _
  case h_15 => exact setIf_maintains _ _
  case h_16 => exact setIf_maintains _ _
  case h_17 => exact jump_maintains _ _
  case h_18 =>
    refine maintains_get.bind fun s => ?_
    split
    · split
      · exact jump_maintains _ _
      · exact maintains_throw _
    · exact maintains_pure _
  case h_19 => exact returnFromRoutine_maintains
  case h_20 => exact maintains_throw _
  case h_21 => exact maintains_throw _

/-- The state at the start of a run, however large the number at the top of the stack is. -/
def startState (stackTop pc : Int) : State where
  registers := Registers.initial.set "rsp" (Bits.and (stackTop - 8) mask64)
  memory := ({} : Std.TreeMap Int Int).insert (Bits.and (Bits.and (stackTop - 8) mask64) mask64)
    (Bits.and haltAddress mask64)
  pc := pc

theorem start_eq (stackTop pc : Int) (s : State) :
    start stackTop pc s = .ok () (startState stackTop pc) := rfl

theorem masked_startState (stackTop pc : Int) : (startState stackTop pc).Masked :=
  ((State.masked_initial.store "rsp" (isWord_and_mask64 _)).insert (isWord_and_mask64 _)
    (isWord_and_mask64 _)).congr rfl rfl

theorem start_maintains (stackTop pc : Int) : Maintains State.Masked (start stackTop pc) := by
  intro s _
  rw [start_eq]
  exact masked_startState stackTop pc

theorem result_maintains {I : State → Prop} : Maintains I result :=
  (fetch_maintains _).bind fun _ => maintains_get.bind fun _ => maintains_pure _

end Exec

/-! ## Runs and sessions -/

theorem during_maintains {I : State → Prop} {α : Type} {x : Exec α} (h : Maintains I x)
    (i : Option PlacedInstr) : Maintains I (during i x) := by
  intro s hs
  have hkept := h s hs
  unfold during
  cases hrun : x s with
  | ok a t =>
      rw [hrun] at hkept
      exact hkept
  | error cause t =>
      rw [hrun] at hkept
      exact hkept

theorem step_maintains (l : Listing) : Maintains State.Masked (step l) := by
  refine maintains_get.bind fun s => ?_
  split
  · exact maintains_throw _
  · exact (maintains_modify fun _ hs => hs.congr rfl rfl).bind fun _ =>
      during_maintains (Exec.instr_maintains _ _) _

theorem runFor_maintains (l : Listing) (entry : String) (limit remaining : Nat) :
    Maintains State.Masked (runFor l entry limit remaining) := by
  induction remaining with
  | zero =>
      refine maintains_get.bind fun s => ?_
      split
      · exact maintains_pure _
      · exact maintains_throw _
  | succ remaining ih =>
      refine maintains_get.bind fun s => ?_
      split
      · exact maintains_pure _
      · refine maintains_get.bind fun s => ?_
        split
        · exact maintains_throw _
        · exact (step_maintains l).bind fun _ => ih

theorem run_maintains (l : Listing) (config : MachineConfig) (entry : Option String) :
    Maintains State.Masked (run l config entry) := by
  unfold run
  dsimp only
  split
  · exact maintains_throw _
  · exact (during_maintains (Exec.start_maintains _ _) _).bind fun _ =>
      (runFor_maintains _ _ _ _).bind fun _ => during_maintains Exec.result_maintains _

namespace Machine

theorem act_maintains (m : Machine) (a : Action) : Maintains State.Masked (m.act a) := by
  cases a with
  | step => exact (step_maintains _).bind fun _ => maintains_pure _
  | run entry => exact (run_maintains _ _ _).bind fun _ => maintains_pure _
  | reset =>
      intro s _
      exact State.masked_initial
  | readRegister name =>
      exact (during_maintains (Exec.readRegister_maintains _) _).bind fun _ => maintains_pure _
  | writeRegister name value =>
      exact (during_maintains (Exec.writeRegister_maintains _ _) _).bind fun _ => maintains_pure _
  | readMemory address =>
      exact (during_maintains (Exec.readMemory_maintains _) _).bind fun _ => maintains_pure _
  | writeMemory address value =>
      exact (during_maintains (Exec.writeMemory_maintains _ _) _).bind fun _ => maintains_pure _
  | setPc pc =>
      exact (maintains_modify fun _ hs => hs.congr rfl rfl).bind fun _ => maintains_pure _
  | setFlags flags =>
      exact (maintains_modify fun _ hs => hs.congr rfl rfl).bind fun _ => maintains_pure _
  | toSigned value => exact maintains_pure _

theorem perform_eq (m : Machine) (a : Action) :
    (m.perform a).2 = { m with state := endState (m.act a m.state) } := by
  unfold perform
  cases m.act a m.state <;> rfl

/-- Actions keep registers and memory masked. -/
theorem perform_masked {m : Machine} (h : m.state.Masked) (a : Action) :
    (m.perform a).2.state.Masked := by
  rw [perform_eq]
  exact act_maintains m a m.state h

end Machine

end StackLang.Unbounded
