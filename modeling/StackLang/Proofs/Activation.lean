import StackLang.Proofs.Arithmetic
import StackLang.Proofs.Moves
import StackLang.Proofs.Placement

/-!
# Activations

The stack while a routine is active: the words that belong to the caller, below them the variables,
and below these the values on the evaluation stack. Addresses are told by their distance below the
frame pointer, and two of them are the same word only if the distances are equal, because the whole
activation fits in the memory once.
-/

namespace StackLang

theorem Word.ofInt_eq_iff {x y : Int} :
    Word.ofInt x = Word.ofInt y ↔ x % 2 ^ 64 = y % 2 ^ 64 := by
  rw [← BitVec.toNat_inj, Word.ofInt, Word.ofInt, BitVec.toNat_ofInt, BitVec.toNat_ofInt]
  omega

/-- The place and the size of an activation, and the words of the caller. -/
structure Activation where
  /-- The frame pointer. -/
  base : Word
  /-- The bytes of the variables. -/
  size : Int
  /-- The greatest number of values on the evaluation stack. -/
  depth : Nat
  /-- The word at the frame pointer and those above it, as far as they matter to the caller. -/
  caller : List Word
  /-- The uses of variables that live in the activation. -/
  owns : VarRef → Prop
  owns_inside : ∀ r, owns r → r.InFrame size
  size_nonneg : 0 ≤ size
  fits : size + 8 * depth + 8 * caller.length ≤ 2 ^ 64

namespace Activation

variable {A : Activation} {i d j k : Nat} {x y : Int} {w : Word}

/-- The address at a distance below the frame pointer. -/
def word (A : Activation) (x : Int) : Word :=
  A.base - Word.ofInt x

/-- The place of the `j`-th value on the evaluation stack, counted from one. -/
def temp (A : Activation) (j : Nat) : Word :=
  A.word (A.size + 8 * j)

theorem word_eq_iff : A.word x = A.word y ↔ x % 2 ^ 64 = y % 2 ^ 64 := by
  rw [← Word.ofInt_eq_iff]
  simp [word]

theorem eq_of_word_eq (h : A.word x = A.word y) (hlt : x < y + 2 ^ 64) (hgt : y < x + 2 ^ 64) :
    x = y := by
  rw [word_eq_iff] at h
  omega

theorem word_sub (A : Activation) (x y : Int) : A.word x - Word.ofInt y = A.word (x + y) := by
  rw [word, word, Word.ofInt, Word.ofInt, Word.ofInt, BitVec.ofInt_add, BitVec.sub_sub]

theorem word_add (A : Activation) (x y : Int) : A.word x + Word.ofInt y = A.word (x - y) := by
  have hsub : A.word (x - y) - Word.ofInt y = A.word x := by
    rw [word_sub, sub_add_cancel]
  rw [← hsub, BitVec.sub_add_cancel]

theorem word_zero (A : Activation) : A.word 0 = A.base := by
  simp [word, Word.ofInt]

theorem temp_push (A : Activation) (d : Nat) : A.temp d - 8 = A.temp (d + 1) := by
  have h := A.word_sub (A.size + 8 * d) 8
  rw [temp, temp]
  refine h.trans ?_
  congr 1
  push_cast
  ring

theorem temp_pop (A : Activation) (d : Nat) : A.temp (d + 1) + 8 = A.temp d := by
  rw [← temp_push, BitVec.sub_add_cancel]

/-- Values on the evaluation stack do not overlap. -/
theorem temp_ne_temp (hpos : 0 < j) (hj : j ≤ A.depth) (hpos' : 0 < k) (hk : k ≤ A.depth)
    (h : j ≠ k) : A.temp j ≠ A.temp k := by
  intro heq
  have hfits := A.fits
  have hsize := A.size_nonneg
  have := eq_of_word_eq heq (by omega) (by omega)
  omega

/-- Values on the evaluation stack do not overlap what is at or above the last variable. -/
theorem word_ne_temp (hlow : -8 * (A.caller.length : Int) < x) (hx : x ≤ A.size) (hj : 0 < j)
    (hd : j ≤ A.depth) : A.word x ≠ A.temp j := by
  intro heq
  have hfits := A.fits
  have := eq_of_word_eq heq (by omega) (by omega)
  omega

/-- Different variables do not overlap, nor do they overlap the words of the caller. -/
theorem word_ne_word (hlow : -8 * (A.caller.length : Int) < x) (hx : x ≤ A.size)
    (hlow' : -8 * (A.caller.length : Int) < y) (hy : y ≤ A.size) (h : x ≠ y) :
    A.word x ≠ A.word y := by
  intro heq
  have hfits := A.fits
  exact h (eq_of_word_eq heq (by omega) (by omega))

/-- The words of the caller are as they were. -/
def Keeps (A : Activation) (m : Memory) : Prop :=
  ∀ (i : Nat) (w : Word), A.caller[i]? = some w → m.read (A.word (-8 * i)) = w

theorem Keeps.write_temp {m : Memory} (h : A.Keeps m) (hj : 0 < j) (hd : j ≤ A.depth) (w : Word) :
    A.Keeps (m.write (A.temp j) w) := by
  intro i v hi
  have hlt : i < A.caller.length := (List.getElem?_eq_some_iff.mp hi).choose
  have hsize := A.size_nonneg
  rw [Memory.read_write_ne _ _ (word_ne_temp (by omega) (by omega) hj hd), h i v hi]

theorem Keeps.write_word {m : Memory} (h : A.Keeps m) (hx : 0 < x) (hsize : x ≤ A.size) (w : Word) :
    A.Keeps (m.write (A.word x) w) := by
  intro i v hi
  have hlt : i < A.caller.length := (List.getElem?_eq_some_iff.mp hi).choose
  have hne : A.word (-8 * i) ≠ A.word x :=
    word_ne_word (by omega) (by omega) (by omega) hsize (by omega)
  rw [Memory.read_write_ne _ _ hne, h i v hi]

/-- The machine is at instruction `i` with `d` values on the evaluation stack. -/
structure At (A : Activation) (i d : Nat) (σ : State) : Prop where
  pc : σ.pc = i
  base : σ.registers.rbp = A.base
  top : σ.registers.rsp = A.temp d
  running : σ.halted = false
  keeps : A.Keeps σ.memory

/-! ## Disciplined states -/

/-- The instruction at `i` is the one that stores the value of an assignment in its target. -/
def Stores (code : List Emission) (frame : Int) (i : Nat) (target : VarRef) : Prop :=
  ∃ location value counters counters' block j,
    (Expr.assign location target value).emit frame counters = .ok (block, counters') ∧
      Stands code j block ∧ i + 2 = j + codeSize block

/-- What the instruction at `i` may do to the memory: nothing, or write the next value on the
evaluation stack, or write the variable that it stores. -/
def Writes (A : Activation) (code : List Emission) (i d : Nat) (m m' : Memory) : Prop :=
  m' = m ∨ (∃ w, d + 1 ≤ A.depth ∧ m' = m.write (A.temp (d + 1)) w) ∨
    ∃ target w, Stores code A.size i target ∧ A.owns target ∧
      m' = m.write (A.word target.offset) w

/-- The machine is at an instruction with as many values on the evaluation stack as the generator
had counted, and the instruction writes nothing that it should not. -/
def Disciplined (A : Activation) (l : Listing) (code : List Emission) (σ : State) : Prop :=
  ∃ i d instr, instrAt? code i = some ⟨d, .instr instr⟩ ∧ A.At i d σ ∧
    ∀ τ, l.step σ = .ok () τ → A.Writes code i d σ.memory τ.memory

/-- The code is loaded, and the activation has room for what it puts on the stack. -/
structure Hosts (A : Activation) (l : Listing) (code : List Emission) : Prop where
  loaded : Loaded l code
  deepest : deepest code ≤ A.depth

/-- The sequence of steps ends at instruction `i` with `d` values on the evaluation stack, with the
given memory and registers. -/
structure Reaches (A : Activation) (l : Listing) (code : List Emission) (n : Nat) (σ τ : State)
    (i d : Nat) (m : Memory) (ρ : Registers) : Prop where
  moves : l.Moves (A.Disciplined l code) n σ τ
  at_ : A.At i d τ
  memory : τ.memory = m
  registers : τ.registers = ρ

namespace Hosts

variable {l : Listing} {code rest rest' : List Emission} {m : Mnemonic} {ops : List Operand}
  {σ τ : State} {name : String}

theorem ready (H : A.Hosts l code) (hs : Stands code i (Emission.instr d m ops :: rest))
    (hσ : A.At i d σ) : l.Ready σ ∧ ∃ p, l.fetch? σ.pc = some p ∧ p.instr = ⟨m, ops⟩ := by
  obtain ⟨hlt, p, hp, hi⟩ := H.loaded.fetch hs
  rw [← hσ.pc] at hlt hp
  exact ⟨⟨hσ.running, hlt⟩, p, hp, hi⟩

theorem move (H : A.Hosts l code) (hs : Stands code i (Emission.instr d m ops :: rest))
    (hσ : A.At i d σ) (hx : Exec.instr l.labels ⟨m, ops⟩ σ.tick = .ok () τ)
    (hw : A.Writes code i d σ.memory τ.memory) : l.Moves (A.Disciplined l code) 1 σ τ := by
  obtain ⟨hr, p, hp, hi⟩ := H.ready hs hσ
  have hstep : l.step σ = .ok () τ := Listing.step_ok hp (hi ▸ hx)
  refine .one ⟨i, d, ⟨m, ops⟩, hs.instrAt?_eq, hσ, fun υ hυ => ?_⟩ hr hstep
  rw [hstep] at hυ
  cases hυ
  exact hw

/-- An instruction that fails is disciplined too. -/
theorem fails {cause : FaultCause} (H : A.Hosts l code)
    (hs : Stands code i (Emission.instr d m ops :: rest)) (hσ : A.At i d σ)
    (hx : Exec.instr l.labels ⟨m, ops⟩ σ.tick = .error cause τ) :
    A.Disciplined l code σ ∧ l.Fails cause σ := by
  obtain ⟨hr, p, hp, hi⟩ := H.ready hs hσ
  have hstep := Listing.step_error hp (hi ▸ hx)
  refine ⟨⟨i, d, ⟨m, ops⟩, hs.instrAt?_eq, hσ, fun υ hυ => ?_⟩, hr, some p, τ, hstep⟩
  rw [hstep] at hυ
  cases hυ

/-- An instruction that changes registers and flags only, and not those of the stack. -/
theorem quiet {ρ : Registers} {φ : Flags} (H : A.Hosts l code)
    (hs : Stands code i (Emission.instr d m ops :: rest)) (hσ : A.At i d σ)
    (hx : Exec.instr l.labels ⟨m, ops⟩ σ.tick =
      .ok () { σ.tick with registers := ρ, flags := φ })
    (hbase : ρ.rbp = σ.registers.rbp) (htop : ρ.rsp = σ.registers.rsp) :
    ∃ τ, A.Reaches l code 1 σ τ (i + 1) d σ.memory ρ ∧ τ.flags = φ := by
  refine ⟨{ σ.tick with registers := ρ, flags := φ }, ⟨H.move hs hσ hx (.inl rfl), ?_, rfl, rfl⟩,
    rfl⟩
  exact ⟨by simp [State.tick, hσ.pc], hbase.trans hσ.base, htop.trans hσ.top, hσ.running, hσ.keeps⟩

theorem push {op : Operand} (H : A.Hosts l code)
    (hs : Stands code i (Emission.instr d .push [op] :: rest)) (hσ : A.At i d σ)
    (hd : d + 1 ≤ A.depth) (hop : Exec.readOperand op σ.tick = .ok w σ.tick) :
    ∃ τ, A.Reaches l code 1 σ τ (i + 1) (d + 1) (σ.memory.write (A.temp (d + 1)) w)
      { σ.registers with rsp := A.temp (d + 1) } := by
  have htop : σ.registers.rsp - 8 = A.temp (d + 1) := by rw [hσ.top, temp_push]
  have hx : Exec.instr l.labels ⟨.push, [op]⟩ σ.tick = .ok () { σ.tick with
      registers := { σ.registers with rsp := σ.registers.rsp - 8 }
      memory := σ.memory.write (σ.registers.rsp - 8) w } := by
    change EStateM.bind (Exec.readOperand op) Exec.push σ.tick = _
    rw [EStateM.bind, hop]
    rfl
  rw [htop] at hx
  refine ⟨_, H.move hs hσ hx (.inr (.inl ⟨w, hd, rfl⟩)), ?_, rfl, rfl⟩
  exact ⟨by simp [State.tick, hσ.pc], hσ.base, rfl, hσ.running,
    hσ.keeps.write_temp (Nat.succ_pos d) hd w⟩

/-- Pops into a register that does not belong to the stack. -/
theorem pop {r : Register} (hr : r = .rax ∨ r = .rcx ∨ r = .rdi) (H : A.Hosts l code)
    (hs : Stands code i (Emission.instr (d + 1) .pop [.reg r] :: rest)) (hσ : A.At i (d + 1) σ) :
    ∃ τ, A.Reaches l code 1 σ τ (i + 1) d σ.memory
      (({ σ.registers with rsp := A.temp d } : Registers).write r
        (σ.memory.read (A.temp (d + 1)))) := by
  have htop : σ.registers.rsp + 8 = A.temp d := by rw [hσ.top, temp_pop]
  have hx : Exec.instr l.labels ⟨.pop, [.reg r]⟩ σ.tick = .ok () { σ.tick with
      registers := ({ σ.registers with rsp := σ.registers.rsp + 8 } : Registers).write r
        (σ.memory.read σ.registers.rsp) } := rfl
  rw [htop, hσ.top] at hx
  refine ⟨_, H.move hs hσ hx (.inl rfl), ?_, rfl, rfl⟩
  have hpc : σ.tick.pc = (i + 1 : Nat) := by simp [State.tick, hσ.pc]
  rcases hr with rfl | rfl | rfl <;> exact ⟨hpc, hσ.base, rfl, hσ.running, hσ.keeps⟩

/-- Stores the word in `rdi` at the address of a variable. -/
theorem store {target : VarRef} (H : A.Hosts l code)
    (hs : Stands code i (Emission.instr d .mov [.mem .rax 0, .reg .rdi] :: rest))
    (hσ : A.At i d σ) (hstores : Stores code A.size i target) (htarget : A.owns target)
    (hrax : σ.registers.rax = A.word target.offset) :
    ∃ τ, A.Reaches l code 1 σ τ (i + 1) d
      (σ.memory.write (A.word target.offset) σ.registers.rdi) σ.registers := by
  have hx : Exec.instr l.labels ⟨.mov, [.mem .rax 0, .reg .rdi]⟩ σ.tick = .ok () { σ.tick with
      memory := σ.memory.write (σ.registers.rax + Word.ofInt 0) σ.registers.rdi } := rfl
  rw [hrax, word_add, sub_zero] at hx
  refine ⟨_, H.move hs hσ hx (.inr (.inr ⟨target, _, hstores, htarget, rfl⟩)), ?_, rfl, rfl⟩
  exact ⟨by simp [State.tick, hσ.pc], hσ.base, hσ.top, hσ.running,
    hσ.keeps.write_word (A.owns_inside _ htarget).1 (A.owns_inside _ htarget).2 _⟩

theorem jump {j : Nat} (H : A.Hosts l code)
    (hs : Stands code i (Emission.instr d .jmp [.label name] :: rest))
    (hlabel : Stands code j (Emission.label name :: rest')) (hσ : A.At i d σ) :
    ∃ τ, A.Reaches l code 1 σ τ j d σ.memory σ.registers := by
  have hx : Exec.instr l.labels ⟨.jmp, [.label name]⟩ σ.tick =
      .ok () { σ.tick with pc := (j : Int) } := by
    simp only [Exec.instr, Exec.jump, H.loaded.label j name rest' hlabel]
    rfl
  exact ⟨_, H.move hs hσ hx (.inl rfl), ⟨rfl, hσ.base, hσ.top, hσ.running, hσ.keeps⟩, rfl, rfl⟩

/-- Jumps if the zero flag is set, and goes on to the next instruction otherwise. -/
theorem jumpIfZero {j : Nat} (H : A.Hosts l code)
    (hs : Stands code i (Emission.instr d .je [.label name] :: rest))
    (hlabel : Stands code j (Emission.label name :: rest')) (hσ : A.At i d σ) :
    ∃ τ, A.Reaches l code 1 σ τ (if σ.flags.zero then j else i + 1) d σ.memory σ.registers := by
  have hx : Exec.instr l.labels ⟨.je, [.label name]⟩ σ.tick =
      .ok () (if σ.flags.zero then { σ.tick with pc := (j : Int) } else σ.tick) := by
    have hz : σ.tick.flags.zero = σ.flags.zero := rfl
    cases h : σ.flags.zero <;>
      simp only [Exec.instr, Exec.get_bind, Exec.jump, H.loaded.label j name rest' hlabel, hz, h,
        Bool.false_eq_true, if_false, if_true] <;> rfl
  refine ⟨_, H.move hs hσ hx (.inl ?_), ?_, ?_, ?_⟩
  · split <;> rfl
  · split
    · exact ⟨rfl, hσ.base, hσ.top, hσ.running, hσ.keeps⟩
    · exact ⟨by simp [State.tick, hσ.pc], hσ.base, hσ.top, hσ.running, hσ.keeps⟩
  · split <;> rfl
  · split <;> rfl

end Hosts

end Activation

end StackLang
