import StackLang.Proofs.MachineFaults
import StackLang.Proofs.Stepping

/-!
# Values of operands

What an operand stands for in a state, what storing a word in it does to the state, and what a step
does that meets an instruction. With these an instruction is known by the values of its operands,
whichever of registers, numbers and words of the memory they are.
-/

namespace StackLang

namespace Operand

/-- The value of an operand in a state. A label has none, nor has a register that is not there. -/
def value? (s : State) : Operand → Option Word
  | .reg r => s.registers.read? r
  | .imm value => some (Word.ofInt value)
  | .mem base d => (s.registers.read? base).map fun b => s.memory.read (b + Word.ofInt d)
  | .label _ => none

/-- The register that is an operand, or that its address starts from. -/
def register? : Operand → Option Register
  | .reg r | .mem r _ => some r
  | .imm _ | .label _ => none

/-- The operand is a place where a word can be stored. -/
def isPlace : Operand → Bool
  | .reg _ | .mem _ _ => true
  | .imm _ | .label _ => false

/-- The value of an operand depends on nothing but its register and the memory. -/
theorem value?_congr {s t : State} {o : Operand}
    (hregister : ∀ r ∈ o.register?, t.registers.read? r = s.registers.read? r)
    (hmemory : t.memory = s.memory) : o.value? t = o.value? s := by
  cases o with
  | reg r => exact hregister r rfl
  | imm value => rfl
  | mem base d => rw [value?, value?, hregister base rfl, hmemory]
  | label name => rfl

end Operand

/-- The state with a word stored in a place. -/
def State.put (s : State) (o : Operand) (w : Word) : State :=
  match o with
  | .reg r => { s with registers := s.registers.write r w }
  | .mem base d =>
    { s with memory := s.memory.write ((s.registers.read? base).getD 0 + Word.ofInt d) w }
  | .imm _ | .label _ => s

theorem Registers.read?_write_self {r : Register} (h : r ≠ .al) (f : Registers) (w : Word) :
    (f.write r w).read? r = some w := by
  cases r with
  | al => exact absurd rfl h
  | other name =>
      simp only [write]
      split
      · next hthere =>
        obtain ⟨e, he⟩ := Option.isSome_iff_exists.mp hthere
        have hname : (fun e : String × Word => e.1 == name) ∘
            (fun e => if e.1 == name then (name, w) else e) = fun e => e.1 == name := by
          funext e
          by_cases he : e.1 = name <;> simp [he]
        have hfound : e.1 = name := by simpa using List.find?_some he
        rw [read?, List.find?_map, hname, he]
        simp [hfound]
      · next hnew =>
        rw [read?, List.find?_append, Option.not_isSome_iff_eq_none.mp hnew]
        simp
  | _ => rfl

namespace State

variable {s : State} {o : Operand} {v : Word}

theorem put_flags (s : State) (o : Operand) (w : Word) : (s.put o w).flags = s.flags := by
  cases o <;> rfl

/-- A place holds what was stored in it. Only a byte is stored in `al`. -/
theorem value?_put_self (hplace : o.isPlace = true) (hal : o ≠ .reg .al)
    (hv : o.value? s = some v) (w : Word) : o.value? (s.put o w) = some w := by
  cases o with
  | reg r =>
      have hr : r ≠ .al := fun h => hal (by rw [h])
      exact Registers.read?_write_self hr s.registers w
  | mem base d =>
      obtain ⟨b, hb, -⟩ := Option.map_eq_some_iff.mp hv
      simp only [put, Operand.value?, hb, Option.map_some, Option.getD_some,
        Memory.read_write_self]
  | imm value => cases hplace
  | label name => cases hplace

end State

namespace Exec

variable {s : State} {o : Operand} {v w : Word}

theorem address_of_read? {base : Register} (h : s.registers.read? base = some w) (d : Int) :
    address base d s = .ok (w + Word.ofInt d) s :=
  bind_ok (readRegister_of_read? h) _

theorem readOperand_of_value? (h : o.value? s = some w) : readOperand o s = .ok w s := by
  cases o with
  | reg r => exact readRegister_of_read? h
  | imm value =>
      cases h
      rfl
  | mem base d =>
      obtain ⟨b, hb, rfl⟩ := Option.map_eq_some_iff.mp h
      exact bind_ok (address_of_read? hb d) _
  | label name => cases h

theorem writeOperand_of_value? (hplace : o.isPlace = true) (hv : o.value? s = some v) (w : Word) :
    writeOperand o w s = .ok () (s.put o w) := by
  cases o with
  | reg r => rfl
  | mem base d =>
      obtain ⟨b, hb, -⟩ := Option.map_eq_some_iff.mp hv
      have hput : s.put (.mem base d) w =
          { s with memory := s.memory.write (b + Word.ofInt d) w } := by
        rw [State.put, hb, Option.getD_some]
      rw [hput]
      exact bind_ok (address_of_read? hb d) _
  | imm value => cases hplace
  | label name => cases hplace

end Exec

namespace Listing

/-- The instruction at a position. -/
def Has (l : Listing) (pc : Int) (i : Instr) : Prop :=
  ∃ p, l.fetch? pc = some p ∧ p.instr = i

variable {l : Listing} {s τ : State} {i : Instr}

theorem Has.step_ok (h : l.Has s.pc i) (hx : Exec.instr l.labels i s.tick = .ok () τ) :
    l.step s = .ok () τ := by
  obtain ⟨p, hp, rfl⟩ := h
  exact Listing.step_ok hp hx

theorem Has.step_error (h : l.Has s.pc i) {cause : FaultCause}
    (hx : Exec.instr l.labels i s.tick = .error cause τ) :
    ∃ p, l.step s = .error ⟨cause, some p⟩ τ := by
  obtain ⟨p, hp, rfl⟩ := h
  exact ⟨p, Listing.step_error hp hx⟩

theorem stepFor_succ (hs : l.step s = .ok () τ) (n : Nat) :
    l.stepFor (n + 1) s = l.stepFor n τ := by
  rw [stepFor, hs]

end Listing

end StackLang
