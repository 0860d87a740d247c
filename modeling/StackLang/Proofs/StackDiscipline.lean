import StackLang.Proofs.Boundaries
import StackLang.Proofs.Compiled

/-!
# The stack while a routine runs

Wherever a run gets to between the prologue and the return label, the stack is as the generator
counted it: the frame pointer and the words of the caller are in place, the stack pointer is below
the frame by the values on the evaluation stack, and steps write these values and the variables
they assign, and nothing else.
-/

namespace StackLang

open Activation (Stores)

/-- The states that a run goes through. -/
def Listing.Visits (l : Listing) (config : MachineConfig) (σ : State) : Prop :=
  ∃ pc n, l.labels.find? (l.startLabel none) = some pc ∧
    l.Moves (fun _ => True) n (startState config pc) σ

namespace Compilation

/-- The stack at an instruction that was emitted with `d` values on the evaluation stack. The frame
pointer is zero when a run starts. -/
structure StackAt (c : Compilation) (top : Int) (d : Nat) (σ : State) : Prop where
  emitted : ∃ (i : Nat) (ins : Instr), σ.pc = i ∧ instrAt? c.routine.code i = some ⟨d, .instr ins⟩
  base : σ.registers.rbp = Word.ofInt (top - 16)
  pointer : σ.registers.rsp = σ.registers.rbp - Word.ofInt (c.routine.frame + 8 * d)
  back : σ.memory.read (Word.ofInt (top - 8)) = Exec.haltAddress
  saved : σ.memory.read (Word.ofInt (top - 16)) = 0

/-- What a step does to the memory: nothing, or it writes a word of the evaluation stack, which is
no variable, or the slot of the variable that is assigned. -/
def WritesInPlace (c : Compilation) (σ τ : State) : Prop :=
  τ.memory = σ.memory ∨
    (∃ (j : Nat) (w : Word), 1 ≤ j ∧
      (∀ slot ∈ c.program.slots.slots, σ.registers.rbp - Word.ofInt slot.offset ≠
        σ.registers.rbp - Word.ofInt (c.routine.frame + 8 * j)) ∧
      τ.memory =
        σ.memory.write (σ.registers.rbp - Word.ofInt (c.routine.frame + 8 * j)) w) ∨
    ∃ (target : VarRef) (w : Word),
      Stores c.routine.code c.routine.frame σ.pc.toNat target ∧ c.program.slots.Places target ∧
      τ.memory = σ.memory.write (σ.registers.rbp - Word.ofInt target.offset) w

end Compilation

namespace Installed

variable {p : Program} {o : RoutineOptions} {frame : Int} {l : Listing}

/-- Every state of a run is disciplined between the prologue and the return label. -/
theorem tidy (I : Installed p o frame l) {config : MachineConfig} {σ : State}
    (h : l.Visits config σ) :
    (I.activation config.stackTop).Tidy l (p.code o frame) (p.home o frame) σ := by
  obtain ⟨pc, m, hpc, hm⟩ := h
  obtain rfl := Option.some.inj (I.start.symm.trans hpc)
  rcases I.fate with ⟨fuel, w, hvalue⟩ | ⟨fuel, hvalue⟩ | hnever
  · obtain ⟨n, hn⟩ := I.concludes fuel
    have hrun := hn config
    rw [hvalue] at hrun
    obtain ⟨τ, hτ, htidy, hhalted, -⟩ := hrun
    exact hτ.passes_of_stuck htidy (Listing.Moves.stuck_of_halted hhalted) hm
  · obtain ⟨n, hn⟩ := I.concludes fuel
    have hrun := hn config
    rw [hvalue] at hrun
    obtain ⟨τ, cause, hτ, htidy, hfails, -⟩ := hrun
    exact hτ.passes_of_stuck htidy (Listing.Moves.stuck_of_fails hfails) hm
  · obtain ⟨n, hn⟩ := I.concludes (m + 1 + nestingAll p.statements)
    have hrun := hn config
    rw [hnever] at hrun
    obtain ⟨hle, τ, hτ⟩ := hrun
    exact hτ.passes hm (by omega)

theorem find?_returnLabel (I : Installed p o frame l) :
    l.labels.find? returnLabel = some (p.home o frame : Int) := by
  have hcode := (Stands.self (p.code o frame)).right.right.next
  rw [codeSize_prologueCode, Nat.zero_add] at hcode
  exact I.loaded.label (p.home o frame) returnLabel _ hcode

/-- A run gets past the prologue. -/
theorem visits_body (I : Installed p o frame l) (config : MachineConfig) :
    ∃ σ, l.Visits config σ ∧ σ.pc = bodyStart frame := by
  obtain ⟨σ, hσ, hrests⟩ := Activation.prologue_runs (I.layout config.stackTop) I.loaded config rfl
    rfl (Stands.self (p.code o frame)).left
  exact ⟨σ, ⟨0, _, I.start, hσ.mono fun _ _ => trivial⟩, hrests.at_.pc⟩

end Installed

theorem Word.toNat_ofInt_mod {x : Int} (h : (16 : Int) ∣ x) : (Word.ofInt x).toNat % 16 = 0 := by
  rw [Word.ofInt, BitVec.toNat_ofInt]
  omega

/-! ## Compiled programs -/

namespace Compilation

variable {c : Compilation} {o : RoutineOptions} {l : Listing} {top : Int} {σ τ : State} {i d : Nat}

theorem stackAt (I : Installed c.program o c.routine.frame l)
    {ins : Instr} (hins : instrAt? c.routine.code i = some ⟨d, .instr ins⟩)
    (hσ : (I.activation top).At i d σ) : c.StackAt top d σ where
  emitted := ⟨i, ins, hσ.pc, hins⟩
  base := hσ.base
  pointer := by
    rw [hσ.top, hσ.base]
    rfl
  back := by
    have hback := hσ.keeps 1 _ rfl
    rw [Activation.word_of_base rfl] at hback
    rw [show top - 8 = top - 16 - -8 by omega]
    exact hback
  saved := by
    have hsaved := hσ.keeps 0 _ rfl
    rw [Activation.word_of_base rfl, Nat.cast_zero, mul_zero, sub_zero] at hsaved
    exact hsaved

/-- The words of the evaluation stack are no variables. -/
theorem slot_ne_temp (I : Installed c.program o c.routine.frame l)
    (hσ : (I.activation top).At i d σ) {j : Nat} (hj : 1 ≤ j)
    (hdeep : j ≤ deepest (c.program.code o c.routine.frame)) :
    ∀ slot ∈ c.program.slots.slots, σ.registers.rbp - Word.ofInt slot.offset ≠
      σ.registers.rbp - Word.ofInt (c.routine.frame + 8 * j) := by
  intro slot hslot
  have hoffset := I.housed.offset_mem hslot
  rw [hσ.base]
  exact Activation.word_ne_temp (A := I.activation top) (by omega) hoffset.2 hj hdeep

theorem writesInPlace (I : Installed c.program o c.routine.frame l)
    (hcode : c.routine.code = c.program.code o c.routine.frame)
    (hσ : (I.activation top).At i d σ)
    (hw : (I.activation top).Writes (c.program.code o c.routine.frame) i d σ.memory τ.memory) :
    c.WritesInPlace σ τ := by
  have hpc : σ.pc.toNat = i := by
    rw [hσ.pc]
    rfl
  rcases hw with hsame | ⟨w, hdeep, hmem⟩ | ⟨target, w, hstores, hplaces, hmem⟩
  · exact Or.inl hsame
  · refine Or.inr (Or.inl ⟨d + 1, w, by omega, slot_ne_temp I hσ (by omega) hdeep, ?_⟩)
    rw [hσ.base]
    exact hmem
  · refine Or.inr (Or.inr ⟨target, w, ?_, hplaces, ?_⟩)
    · rw [hpc, hcode]
      exact hstores
    · rw [hσ.base]
      exact hmem

/-- At a boundary the evaluation stack is empty. -/
theorem depth_eq_zero (I : Installed c.program o c.routine.frame l)
    (hcode : c.routine.code = c.program.code o c.routine.frame) (hstack : c.StackAt top d σ)
    (hboundary : c.program.Boundary o.comments c.routine.frame σ.pc.toNat) : d = 0 := by
  obtain ⟨i, ins, hpc, hins⟩ := hstack.emitted
  obtain ⟨ins', hlevel⟩ := hboundary.isLevel I.housed.sound.statements
  rw [hpc, Int.toNat_natCast, ← hcode, hins] at hlevel
  exact congrArg Emission.depth (Option.some.inj hlevel)

theorem aligned (I : Installed c.program o c.routine.frame l) (htop : top % 16 = 0)
    (halign : 16 ∣ o.alignment) (hstack : c.StackAt top 0 σ) :
    σ.registers.rsp.toNat % 16 = 0 := by
  have hframe : (16 : Int) ∣ c.routine.frame :=
    halign.trans (SlotTable.frameSize?_covers I.housed.alignment I.housed.frame).2
  rw [hstack.pointer, hstack.base, Word.ofInt_sub_ofInt]
  refine Word.toNat_ofInt_mod ?_
  push_cast
  omega

/-- Wherever a run of a compiled program gets to between the prologue and the return label, the
stack is as the generator counted it and steps write in place. Between statements nothing is on the
evaluation stack, and the stack pointer is aligned if the frame is. -/
theorem stack_disciplined {source filename : String} {o : RoutineOptions} {c : Compilation}
    (hc : compile source filename o = .ok c) (hentry : EntryName o.entry)
    (hroom : c.routine.frame + 8 * deepest c.routine.code + 16 ≤ 2 ^ 64) :
    ∃ l prologue counters home, Listing.read c.assembly = .ok l ∧
      emitPrologue o c.program.slots.size c.routine.frame {} = .ok (prologue, counters) ∧
      l.labels.find? returnLabel = some home ∧
      ∀ (config : MachineConfig) (σ : State), l.Visits config σ →
        (codeSize prologue : Int) ≤ σ.pc → σ.pc < home →
        ∃ d, c.StackAt config.stackTop d σ ∧
          (∀ τ, l.step σ = .ok () τ → c.WritesInPlace σ τ) ∧
          (c.program.Boundary o.comments c.routine.frame σ.pc.toNat →
            d = 0 ∧ (16 ∣ o.alignment → σ.registers.rsp.toNat % 16 = 0)) := by
  obtain ⟨l, hl, hcode, I⟩ := exists_installed hc hentry hroom
  refine ⟨l, _, _, _, hl, emitPrologue_ok o _ _, I.find?_returnLabel,
    fun config σ hvisits hbody hhome => ?_⟩
  rw [codeSize_prologueCode] at hbody
  obtain ⟨i, d, ins, hins, hat, hwrites⟩ := I.tidy hvisits hbody hhome
  rw [← hcode] at hins
  have hstack := stackAt I hins hat
  refine ⟨d, hstack, fun τ hτ => writesInPlace I hcode hat (hwrites τ hτ), fun hboundary => ?_⟩
  have hzero := depth_eq_zero I hcode hstack hboundary
  subst hzero
  exact ⟨rfl, fun halign => aligned I config.stackTop_aligned halign hstack⟩

def nestedLoops : String := "for (i = 0; i < 3; i = i + 1) while (j < i) j = j + 1; j;"

theorem exists_nestedLoops : ∃ c, compile nestedLoops = .ok c ∧ c.routine.frame = 16 ∧
    c.program.statements ≠ [] ∧ c.routine.frame + 8 * deepest c.routine.code + 16 ≤ 2 ^ 64 := by
  have hcheck : ((compile nestedLoops).toOption.any fun c : Compilation => decide
      (c.routine.frame = 16 ∧ c.program.statements.isEmpty = false ∧
        c.routine.frame + 8 * deepest c.routine.code + 16 ≤ 2 ^ 64)) = true := by
    decide +kernel
  obtain ⟨c, hc, hcheck⟩ := exists_ok_of_any hcheck
  obtain ⟨hframe, hne, hroom⟩ := of_decide_eq_true hcheck
  exact ⟨c, hc, hframe, List.isEmpty_eq_false_iff.mp hne, hroom⟩

theorem stack_disciplined_nestedLoops :
    ∃ c l σ, compile nestedLoops = .ok c ∧ Listing.read c.assembly = .ok l ∧ l.Visits {} σ ∧
      σ.pc = 4 ∧ c.StackAt 0x7FFFF000 0 σ ∧ σ.registers.rsp.toNat % 16 = 0 := by
  obtain ⟨c, hc, hframe, hne, hroom⟩ := exists_nestedLoops
  have hentry : EntryName "main" := EntryName.of_head (by decide) (by decide)
  obtain ⟨l, hl, -, I⟩ := exists_installed hc hentry hroom
  obtain ⟨σ, hvisits, hpc⟩ := I.visits_body {}
  obtain ⟨l', prologue, counters, home, hl', hprologue, hhome, hall⟩ :=
    stack_disciplined hc hentry hroom
  obtain rfl : l = l' := Except.ok.inj (hl.symm.trans hl')
  have hbody : codeSize prologue = bodyStart c.routine.frame := by
    rw [emitPrologue_ok] at hprologue
    cases hprologue
    exact codeSize_prologueCode _ _ _
  have hlate : σ.pc < home := by
    rw [I.find?_returnLabel] at hhome
    rw [← Option.some.inj hhome, hpc, Program.home]
    omega
  obtain ⟨d, hstack, -, hlevel⟩ := hall {} σ hvisits (by rw [hbody, hpc]) hlate
  have hboundary : c.program.Boundary false c.routine.frame σ.pc.toNat := by
    obtain ⟨s, rest, hs⟩ := List.exists_cons_of_ne_nil hne
    have hsplit : c.program.statements = [] ++ s :: rest := hs
    refine ⟨s, _, _, .top hsplit, Or.inl ?_⟩
    rw [hpc, Int.toNat_natCast]
    rfl
  obtain ⟨rfl, haligned⟩ := hlevel hboundary
  refine ⟨c, l, σ, hc, hl, hvisits, ?_, hstack, haligned (by decide)⟩
  rw [hpc, hframe]
  rfl

end Compilation

end StackLang
