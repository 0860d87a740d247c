import StackLang.Proofs.Activation
import StackLang.Proofs.Generation

/-!
# Running expressions

The code of an expression leaves its value on the evaluation stack and the variables as the
expression leaves them, or stops at the division that has no result. It touches nothing but the
variables and the words at which its own values stand.

The number of steps depends on the expression and the variables alone, and not on where the code
and the activation are. There are as many as there are instructions, or fewer if a division has no
result.
-/

namespace StackLang

namespace Activation

variable {κ : Type} {key : VarRef → κ} {P : VarRef → Prop} {A : Activation}
  {store : Store κ} {m m' : Memory} {i d j k n : Nat} {w : Word} {l : Listing}
  {code : List Emission} {σ τ : State}

/-! ## Variables in memory -/

/-- The variables that satisfy `P` live in the activation, and those of different keys lie
apart. -/
structure Layout (A : Activation) (key : VarRef → κ) (P : VarRef → Prop) : Prop where
  owned : ∀ r, P r → A.owns r
  separate : ∀ r r', P r → P r' → (key r = key r' ↔ r.offset = r'.offset)

theorem Layout.inside (L : A.Layout key P) (r : VarRef) (hr : P r) : r.InFrame A.size :=
  A.owns_inside r (L.owned r hr)

/-- The memory holds the variables. -/
def Holds (A : Activation) (key : VarRef → κ) (P : VarRef → Prop) (m : Memory)
    (store : Store κ) : Prop :=
  ∀ r, P r → m.read (A.word r.offset) = store (key r)

theorem Holds.write_temp (L : A.Layout key P) (h : A.Holds key P m store) (hj : 0 < j)
    (hd : j ≤ A.depth) (w : Word) : A.Holds key P (m.write (A.temp j) w) store := by
  intro r hr
  have hin := L.inside r hr
  have hpos := hin.1
  rw [Memory.read_write_ne _ _ (word_ne_temp (by omega) hin.2 hj hd), h r hr]

theorem Holds.write_word [DecidableEq κ] (L : A.Layout key P) (h : A.Holds key P m store)
    {target : VarRef} (ht : P target) (w : Word) :
    A.Holds key P (m.write (A.word target.offset) w) (store.set (key target) w) := by
  intro r hr
  have hsep := L.separate r target hr ht
  have hr' := L.inside r hr
  have ht' := L.inside target ht
  have hpos := hr'.1
  have hpos' := ht'.1
  by_cases heq : r.offset = target.offset
  · rw [heq, Memory.read_write_self, Store.set, if_pos (hsep.mpr heq)]
  · have hkey : key r ≠ key target := fun hk => heq (hsep.mp hk)
    rw [Memory.read_write_ne _ _ (word_ne_word (by omega) hr'.2 (by omega) ht'.2 heq), Store.set,
      if_neg hkey, h r hr]

/-- Only variables and values above the `k`-th have changed. -/
def Spares (A : Activation) (P : VarRef → Prop) (k : Nat) (m m' : Memory) : Prop :=
  ∀ a, (∀ r, P r → a ≠ A.word r.offset) → (∀ j, k < j → j ≤ A.depth → a ≠ A.temp j) →
    m'.read a = m.read a

theorem Spares.refl (m : Memory) : A.Spares P k m m :=
  fun _ _ _ => rfl

theorem Spares.trans {m'' : Memory} (h : A.Spares P k m m') (h' : A.Spares P k m' m'') :
    A.Spares P k m m'' :=
  fun a hr hj => (h' a hr hj).trans (h a hr hj)

theorem Spares.mono (h : A.Spares P k m m') (hd : d ≤ k) : A.Spares P d m m' :=
  fun a hr hj => h a hr fun j hlt hle => hj j (by omega) hle

theorem Spares.write_temp (hj : k < j) (hd : j ≤ A.depth) (w : Word) :
    A.Spares P k m (m.write (A.temp j) w) :=
  fun _ _ ha => Memory.read_write_ne _ _ (ha j hj hd)

theorem Spares.write_word {target : VarRef} (ht : P target) (w : Word) :
    A.Spares P k m (m.write (A.word target.offset) w) :=
  fun _ ha _ => Memory.read_write_ne _ _ (ha target ht)

/-- The values below stay. -/
theorem Spares.temp (L : A.Layout key P) (h : A.Spares P k m m') (hj : 0 < j) (hjk : j ≤ k)
    (hd : k ≤ A.depth) : m'.read (A.temp j) = m.read (A.temp j) := by
  refine h _ (fun r hr => ?_) fun j' hlt hle =>
    temp_ne_temp hj (by omega) (by omega) hle (by omega)
  have hin := L.inside r hr
  have hpos := hin.1
  exact (word_ne_temp (by omega) hin.2 hj (by omega)).symm

/-! ## Outcomes -/

/-- Steps that belong to an expression evaluated on top of `d` values. Each goes on to the next
instruction. -/
structure Evolves (A : Activation) (l : Listing) (code : List Emission) (P : VarRef → Prop)
    (n d : Nat) (σ τ : State) : Prop where
  moves : l.Moves (A.Disciplined l code) n σ τ
  straight : τ.pc = σ.pc + n
  spares : A.Spares P d σ.memory τ.memory
  last : τ.registers.rcx = σ.registers.rcx

theorem Evolves.refl (σ : State) : A.Evolves l code P 0 d σ σ :=
  ⟨.refl σ, (add_zero _).symm, .refl _, rfl⟩

theorem Evolves.trans {n' : Nat} {υ : State} (h : A.Evolves l code P n d σ τ)
    (h' : A.Evolves l code P n' k τ υ) (hd : d ≤ k) : A.Evolves l code P (n + n') d σ υ where
  moves := h.moves.trans h'.moves
  straight := by
    rw [h'.straight, h.straight, Nat.cast_add, add_assoc]
  spares := h.spares.trans (h'.spares.mono hd)
  last := h'.last.trans h.last

/-- The code of an expression has come to its end. -/
structure Yields (A : Activation) (l : Listing) (code : List Emission) (key : VarRef → κ)
    (P : VarRef → Prop) (n : Nat) (σ τ : State) (i d : Nat) (w : Word) (store : Store κ) : Prop
    extends A.Evolves l code P n d σ τ where
  at_ : A.At i (d + 1) τ
  value : τ.memory.read (A.temp (d + 1)) = w
  holds : A.Holds key P τ.memory store

theorem Yields.moved {i' : Nat} (h : A.Yields l code key P n σ τ i d w store) (hi : i = i') :
    A.Yields l code key P n σ τ i' d w store :=
  hi ▸ h

/-- The machine gets to a division that fails; nothing else stops it. -/
def Stops (A : Activation) (l : Listing) (code : List Emission) (n : Nat) (σ : State) :
    Trap → Prop
  | .division => ∃ τ cause, l.Moves (A.Disciplined l code) n σ τ ∧ A.Disciplined l code τ ∧
      l.Fails cause τ ∧ (cause = .divisionByZero ∨ cause = .quotientRange)
  | .formless => False

theorem Stops.after {n' : Nat} {t : Trap} (h : A.Stops l code n' τ t)
    (hmoves : l.Moves (A.Disciplined l code) n σ τ) : A.Stops l code (n + n') σ t := by
  cases t with
  | division =>
      obtain ⟨υ, cause, hm, hrest⟩ := h
      exact ⟨υ, cause, hmoves.trans hm, hrest⟩
  | formless => exact h

/-- The machine stops in front of instruction `i`. -/
def StopsBefore (A : Activation) (l : Listing) (code : List Emission) (n : Nat) (σ : State)
    (i : Nat) (t : Trap) : Prop :=
  A.Stops l code n σ t ∧ σ.pc + n < i

theorem StopsBefore.mono {t : Trap} (h : A.StopsBefore l code n σ i t) (hij : i ≤ j) :
    A.StopsBefore l code n σ j t :=
  ⟨h.1, h.2.trans_le (Int.ofNat_le.mpr hij)⟩

theorem StopsBefore.after {n' : Nat} {t : Trap} (h : A.StopsBefore l code n' τ i t)
    (hevolves : A.Evolves l code P n d σ τ) : A.StopsBefore l code (n + n') σ i t := by
  refine ⟨h.1.after hevolves.moves, ?_⟩
  rw [Nat.cast_add, ← add_assoc, ← hevolves.straight]
  exact h.2

/-- What the code of an expression must do, by the value of the expression. If there is none, the
machine does not get to the end. -/
def Computes (A : Activation) (l : Listing) (code : List Emission) (key : VarRef → κ)
    (P : VarRef → Prop) (n : Nat) (σ : State) (i d : Nat) :
    Except Trap (Word × Store κ) → Prop
  | .ok (w, store) => ∃ τ, A.Yields l code key P n σ τ i d w store
  | .error t => A.StopsBefore l code n σ i t

namespace Reaches

variable {n' i' d' : Nat} {ρ ρ' : Registers} {υ : State}

theorem trans (h : A.Reaches l code n σ τ i d m ρ) (h' : A.Reaches l code n' τ υ i' d' m' ρ') :
    A.Reaches l code (n + n') σ υ i' d' m' ρ' :=
  ⟨h.moves.trans h'.moves, h'.at_, h'.memory, h'.registers⟩

theorem evolves (h : A.Reaches l code n σ τ i d' m ρ) (hi : (i : Int) = σ.pc + n)
    (hm : A.Spares P d σ.memory m) (hρ : ρ.rcx = σ.registers.rcx) : A.Evolves l code P n d σ τ :=
  ⟨h.moves, h.at_.pc.trans hi, h.memory ▸ hm, by rw [h.registers, hρ]⟩

end Reaches

/-- The last steps of an expression, which push its value. -/
theorem Evolves.yields {n' : Nat} {ρ : Registers} {υ : State} (h : A.Evolves l code P n d σ τ)
    (L : A.Layout key P) (hd : d + 1 ≤ A.depth) (hstore : A.Holds key P τ.memory store)
    (h' : A.Reaches l code n' τ υ i (d + 1) (τ.memory.write (A.temp (d + 1)) w) ρ)
    (hi : (i : Int) = τ.pc + n') (hρ : ρ.rcx = τ.registers.rcx) :
    A.Yields l code key P (n + n') σ υ i d w store where
  toEvolves := h.trans (h'.evolves hi (.write_temp (Nat.lt_succ_self d) hd w) hρ) le_rfl
  at_ := h'.at_
  value := by rw [h'.memory, Memory.read_write_self]
  holds := h'.memory ▸ hstore.write_temp L (Nat.succ_pos d) hd w

/-! ## Numbers and variables -/

namespace Hosts

theorem number {value : Int} (H : A.Hosts l code) (hs : Stands code i (numberCode value d))
    (hσ : A.At i d σ) (hd : d + 1 ≤ A.depth) :
    ∃ τ ρ, A.Reaches l code (codeSize (numberCode value 0)) σ τ
      (i + codeSize (numberCode value d)) (d + 1)
      (σ.memory.write (A.temp (d + 1)) (Word.ofInt value)) ρ ∧ ρ.rcx = σ.registers.rcx := by
  unfold numberCode at hs ⊢
  split at hs
  · next hfits =>
    obtain ⟨τ, hτ⟩ := H.push hs hσ hd (w := Word.ofInt value) rfl
    simp only [hfits, if_true]
    exact ⟨τ, _, hτ, rfl⟩
  · next hfits =>
    obtain ⟨τ₁, h₁, -⟩ := H.quiet hs hσ (ρ := σ.registers.write .rax (Word.ofInt value))
      (φ := σ.flags) rfl rfl rfl
    obtain ⟨τ₂, h₂⟩ := H.push hs.next h₁.at_ hd (w := τ₁.registers.rax) rfl
    rw [h₁.memory, h₁.registers] at h₂
    simp only [hfits]
    exact ⟨τ₂, _, h₁.trans h₂, rfl⟩

/-- The address of a variable goes on the evaluation stack like a value. -/
theorem address {r : VarRef} (H : A.Hosts l code) (L : A.Layout key P)
    (hs : Stands code i (r.addressCode d)) (hσ : A.At i d σ)
    (hstore : A.Holds key P σ.memory store) (hd : d + 1 ≤ A.depth) :
    ∃ τ, A.Yields l code key P 2 σ τ (i + 2) d (A.word r.offset) store := by
  have hword : σ.registers.rbp + Word.ofInt (-r.offset) = A.word r.offset := by
    rw [hσ.base, ← A.word_zero, word_add, zero_sub, neg_neg]
  obtain ⟨τ₁, h₁, -⟩ := H.quiet hs hσ
    (ρ := σ.registers.write .rax (σ.registers.rbp + Word.ofInt (-r.offset)))
    (φ := σ.flags) rfl rfl rfl
  obtain ⟨τ₂, h₂⟩ := H.push hs.next h₁.at_ hd (w := τ₁.registers.rax) rfl
  rw [h₁.memory, h₁.registers, hword] at h₂
  refine ⟨τ₂, (Evolves.refl σ).yields L hd hstore (h₁.trans h₂) ?_ rfl⟩
  rw [hσ.pc]
  rfl

/-- Takes the address of a variable off the stack and pushes what is there. -/
theorem load {r : VarRef} (H : A.Hosts l code) (L : A.Layout key P) (hr : P r)
    (hs : Stands code i [Emission.instr (d + 1) .pop [.reg .rax],
      Emission.instr d .mov [.reg .rax, .mem .rax 0], Emission.instr d .push [.reg .rax]])
    (hd : d + 1 ≤ A.depth) (h : A.Yields l code key P n σ τ i d (A.word r.offset) store) :
    ∃ υ, A.Yields l code key P (n + 3) σ υ (i + 3) d (store (key r)) store := by
  obtain ⟨τ₁, h₁⟩ := H.pop (.inl rfl) hs h.at_
  obtain ⟨τ₂, h₂, -⟩ := H.quiet hs.next h₁.at_
    (ρ := τ₁.registers.write .rax (τ₁.memory.read (τ₁.registers.rax + Word.ofInt 0)))
    (φ := τ₁.flags) rfl rfl rfl
  obtain ⟨τ₃, h₃⟩ := H.push hs.next.next h₂.at_ hd (w := τ₂.registers.rax) rfl
  rw [h₁.memory, h₁.registers] at h₂
  rw [h₂.memory, h₂.registers] at h₃
  have hread : τ.memory.read (τ.memory.read (A.temp (d + 1)) + Word.ofInt 0) = store (key r) := by
    rw [h.value, word_add, sub_zero, h.holds r hr]
  simp only [Registers.write, hread] at h₃
  refine ⟨τ₃, h.toEvolves.yields L hd h.holds ((h₁.trans h₂).trans h₃) ?_ rfl⟩
  rw [h.at_.pc]
  rfl

/-- The room that the depth of an instruction vouches for. -/
theorem depth_le {e : Emission} {rest : List Emission} (H : A.Hosts l code)
    (hs : Stands code i (e :: rest)) : e.depth ≤ A.depth :=
  hs.depth_le.trans H.deepest

/-- Two values, one evaluated on top of the other, are taken off the stack. -/
theorem operands {n' i' : Nat} {x y : Word} {s s' : Store κ} {υ : State} {rest : List Emission}
    (H : A.Hosts l code) (L : A.Layout key P)
    (hs : Stands code i (Emission.instr (d + 2) .pop [.reg .rdi] ::
      Emission.instr (d + 1) .pop [.reg .rax] :: rest))
    (ha : A.Yields l code key P n σ τ i' d x s) (hb : A.Yields l code key P n' τ υ i (d + 1) y s') :
    ∃ φ, A.Evolves l code P (n + n' + 2) d σ φ ∧ A.At (i + 2) d φ ∧
      A.Holds key P φ.memory s' ∧ φ.registers.rax = x ∧ φ.registers.rdi = y := by
  have hd : d + 2 ≤ A.depth := H.depth_le hs
  obtain ⟨τ₁, h₁⟩ := H.pop (.inr (.inr rfl)) hs hb.at_
  obtain ⟨τ₂, h₂⟩ := H.pop (.inl rfl) hs.next h₁.at_
  rw [h₁.memory, h₁.registers] at h₂
  have hx : υ.memory.read (A.temp (d + 1)) = x := by
    rw [hb.spares.temp L (Nat.succ_pos d) le_rfl (by omega), ha.value]
  have hpops := (h₁.trans h₂).evolves (P := P) (d := d) (by rw [hb.at_.pc]; rfl) (.refl _) rfl
  refine ⟨τ₂, (ha.toEvolves.trans hb.toEvolves (Nat.le_succ d)).trans hpops le_rfl, h₂.at_,
    h₂.memory ▸ hb.holds, ?_, ?_⟩
  · rw [h₂.registers]
    exact hx
  · rw [h₂.registers]
    exact hb.value

end Hosts

/-! ## Operations -/

/-- What the code of an operation must do, by its result. -/
def Combines (A : Activation) (l : Listing) (code : List Emission) (n : Nat) (σ : State)
    (i d : Nat) : Except Trap Word → Prop
  | .ok w => ∃ τ ρ, A.Reaches l code n σ τ i d σ.memory ρ ∧ (i : Int) = σ.pc + n ∧ ρ.rax = w ∧
      ρ.rcx = σ.registers.rcx
  | .error t => A.StopsBefore l code n σ i t

namespace Hosts

/-- An operation of one instruction that leaves its result in `rax`. -/
theorem combine {mn : Mnemonic} {ops : List Operand} {rest : List Emission} {φ : Flags}
    (H : A.Hosts l code) (hs : Stands code i (Emission.instr d mn ops :: rest)) (hσ : A.At i d σ)
    (hx : Exec.instr l.labels ⟨mn, ops⟩ σ.tick =
      .ok () { σ.tick with registers := σ.registers.write .rax w, flags := φ }) :
    A.Combines l code 1 σ (i + 1) d (.ok w) := by
  obtain ⟨τ, h, -⟩ := H.quiet hs hσ hx rfl rfl
  exact ⟨τ, _, h, by rw [hσ.pc]; rfl, rfl, rfl⟩

/-- A comparison, by the condition on the flags that its instruction looks at. -/
theorem compare (condition : Flags → Bool) {set : Mnemonic} {b : Bool} (H : A.Hosts l code)
    (hs : Stands code i (compareCode set d)) (hσ : A.At i d σ)
    (hset : ∀ s : State, Exec.instr l.labels ⟨set, [.reg .al]⟩ s =
      .ok () { s with registers := s.registers.write .al (Word.ofBool (condition s.flags)) })
    (hb : condition (.ofResult (σ.registers.rax.toInt - σ.registers.rdi.toInt)) = b) :
    A.Combines l code 3 σ (i + 3) d (.ok (Word.ofBool b)) := by
  obtain ⟨τ₁, h₁, hφ⟩ := H.quiet hs hσ (ρ := σ.registers)
    (φ := .ofResult (σ.registers.rax.toInt - σ.registers.rdi.toInt)) rfl rfl rfl
  obtain ⟨τ₂, h₂, -⟩ := H.quiet hs.next h₁.at_
    (ρ := τ₁.registers.write .al (Word.ofBool (condition τ₁.flags))) (φ := τ₁.flags)
    (hset τ₁.tick) rfl rfl
  obtain ⟨τ₃, h₃, -⟩ := H.quiet hs.next.next h₂.at_
    (ρ := τ₂.registers.write .rax τ₂.registers.rax.lowByte.lowByte) (φ := τ₂.flags) rfl rfl rfl
  rw [h₁.memory, h₁.registers, hφ, hb] at h₂
  rw [h₂.memory, h₂.registers] at h₃
  refine ⟨τ₃, _, (h₁.trans h₂).trans h₃, by rw [hσ.pc]; rfl, ?_, rfl⟩
  simp only [Registers.write, Word.lowByte_withLowByte, Word.lowByte_ofBool]

/-- The sign goes to `rdx` before the division. -/
theorem extend (H : A.Hosts l code) (hs : Stands code i (BinaryOp.div.code d)) (hσ : A.At i d σ) :
    ∃ τ, A.Reaches l code 1 σ τ (i + 1) d σ.memory
        (σ.registers.write .rdx (if σ.registers.rax.msb then -1 else 0)) ∧
      Exec.instr l.labels ⟨.idiv, [.reg .rdi]⟩ τ.tick = Exec.divide σ.registers.rdi τ.tick ∧
      τ.tick.registers.rax = σ.registers.rax ∧
      τ.tick.registers.rdx = if τ.tick.registers.rax.msb then -1 else 0 := by
  obtain ⟨τ, h, -⟩ := H.quiet hs hσ (φ := σ.flags)
    (ρ := σ.registers.write .rdx (if σ.registers.rax.msb then -1 else 0)) rfl rfl rfl
  have hrdi : σ.registers.rdi = τ.tick.registers.rdi := by
    simp only [State.tick, h.registers, Registers.write]
  have hrax : τ.tick.registers.rax = σ.registers.rax := by
    simp only [State.tick, h.registers, Registers.write]
  refine ⟨τ, h, by rw [hrdi]; rfl, hrax, ?_⟩
  rw [hrax]
  simp only [State.tick, h.registers, Registers.write]

theorem divide_traps (H : A.Hosts l code) (hs : Stands code i (BinaryOp.div.code d))
    (hσ : A.At i d σ)
    (h : σ.registers.rdi = 0 ∨ σ.registers.rax = BitVec.intMin 64 ∧ σ.registers.rdi = -1) :
    A.Combines l code 1 σ (i + 2) d (.error .division) := by
  refine ⟨?_, by rw [hσ.pc]; omega⟩
  obtain ⟨τ, hτ, hx, hrax, hrdx⟩ := H.extend hs hσ
  by_cases hzero : σ.registers.rdi = 0
  · rw [hzero, Exec.divide_zero] at hx
    obtain ⟨hdisc, hfails⟩ := H.fails hs.next hτ.at_ hx
    exact ⟨τ, _, hτ.moves, hdisc, hfails, .inl rfl⟩
  · rw [Exec.divide_eq hzero hrdx, hrax, if_pos (h.resolve_left hzero)] at hx
    obtain ⟨hdisc, hfails⟩ := H.fails hs.next hτ.at_ hx
    exact ⟨τ, _, hτ.moves, hdisc, hfails, .inr rfl⟩

theorem divide_yields (H : A.Hosts l code) (hs : Stands code i (BinaryOp.div.code d))
    (hσ : A.At i d σ)
    (h : ¬ (σ.registers.rdi = 0 ∨
      σ.registers.rax = BitVec.intMin 64 ∧ σ.registers.rdi = -1)) :
    A.Combines l code 2 σ (i + 2) d (.ok (σ.registers.rax.sdiv σ.registers.rdi)) := by
  obtain ⟨τ, hτ, hx, hrax, hrdx⟩ := H.extend hs hσ
  obtain ⟨hzero, hmin⟩ := not_or.mp h
  rw [Exec.divide_eq hzero hrdx, hrax, if_neg hmin] at hx
  obtain ⟨υ, hυ, -⟩ := H.quiet hs.next hτ.at_ hx rfl rfl
  rw [hτ.memory] at hυ
  refine ⟨υ, _, hτ.trans hυ, by rw [hσ.pc]; rfl, rfl, ?_⟩
  simp only [State.tick, hτ.registers, Registers.write]

end Hosts

end Activation

/-! ## Expressions -/

/-- The code of an operation on the words in `rax` and `rdi`. -/
theorem BinaryOp.runs (op : BinaryOp) (x y : Word) :
    ∃ n, ∀ {A : Activation} {l : Listing} {code : List Emission} {i d : Nat} {σ : State},
      A.Hosts l code → Stands code i (op.code d) → A.At i d σ → σ.registers.rax = x →
      σ.registers.rdi = y →
      A.Combines l code n σ (i + codeSize (op.code d)) d (op.eval x y) := by
  cases op with
  | add =>
      refine ⟨1, fun H hs hσ hx hy => ?_⟩
      subst hx hy
      rw [eval, ← Word.ofInt_add]
      exact H.combine hs hσ rfl
  | sub =>
      refine ⟨1, fun H hs hσ hx hy => ?_⟩
      subst hx hy
      rw [eval, ← Word.ofInt_sub]
      exact H.combine hs hσ rfl
  | mul =>
      refine ⟨1, fun H hs hσ hx hy => ?_⟩
      subst hx hy
      rw [eval, ← Word.ofInt_mul]
      exact H.combine hs hσ rfl
  | div =>
      by_cases h : y = 0 ∨ x = BitVec.intMin 64 ∧ y = -1
      · refine ⟨1, fun H hs hσ hx hy => ?_⟩
        subst hx hy
        rw [eval, if_pos h]
        exact H.divide_traps hs hσ h
      · refine ⟨2, fun H hs hσ hx hy => ?_⟩
        subst hx hy
        rw [eval, if_neg h]
        exact H.divide_yields hs hσ h
  | eq =>
      refine ⟨3, fun H hs hσ hx hy => ?_⟩
      subst hx hy
      exact H.compare (fun f => f.zero) hs hσ (fun _ => rfl)
        (Flags.zero_ofResult _ _)
  | ne =>
      refine ⟨3, fun H hs hσ hx hy => ?_⟩
      subst hx hy
      exact H.compare (fun f => !f.zero) hs hσ (fun _ => rfl)
        (congrArg not (Flags.zero_ofResult _ _))
  | lt =>
      refine ⟨3, fun H hs hσ hx hy => ?_⟩
      subst hx hy
      exact H.compare (fun f => f.sign != f.overflow) hs hσ (fun _ => rfl)
        (Flags.less_ofResult _ _)
  | le =>
      refine ⟨3, fun H hs hσ hx hy => ?_⟩
      subst hx hy
      exact H.compare (fun f => f.zero || f.sign != f.overflow) hs hσ (fun _ => rfl)
        (Flags.lessOrEqual_ofResult _ _)

variable {κ : Type} [DecidableEq κ] {P : VarRef → Prop} {N : Int → Prop}

namespace Expr

/-- The code of the expression, wherever it stands, evaluates it in `n` steps. -/
def Runs (key : VarRef → κ) (P : VarRef → Prop) (e : Expr) (store : Store κ) (n : Nat) : Prop :=
  ∀ {A : Activation} {l : Listing} {code : List Emission} {i d : Nat} {σ : State},
    A.Layout key P → A.Hosts l code → Stands code i (e.code d) → A.At i d σ →
    A.Holds key P σ.memory store → d + 1 ≤ A.depth →
    A.Computes l code key P n σ (i + codeSize (e.code d)) d (e.eval key store)

/-- The steps of two operands, and of the operation on their values if both have one. -/
def binarySteps (key : VarRef → κ) (op : BinaryOp) (a b : Expr) (na nb : Store κ → Nat)
    (no : Word → Word → Nat) (store : Store κ) : Nat :=
  match a.eval key store with
  | .error _ => na store
  | .ok (x, s) => match b.eval key s with
    | .error _ => na store + nb s
    | .ok (y, _) => match op.eval x y with
      | .error _ => na store + nb s + 2 + no x y
      | .ok _ => na store + nb s + 2 + (no x y + 1)

theorem binary_runs {key : VarRef → κ} {op : BinaryOp} {a b : Expr} {na nb : Store κ → Nat}
    (location : Location) (ha : ∀ s, a.Runs key P s (na s)) (hb : ∀ s, b.Runs key P s (nb s))
    (store : Store κ) : ∃ n, (Expr.binary location op a b).Runs key P store n := by
  choose no ho using op.runs
  refine ⟨binarySteps key op a b na nb no store, fun {A l code i d σ} L H hs hσ hstore hd => ?_⟩
  have hruna := ha store L H hs.left hσ hstore hd
  rw [eval, binarySteps]
  cases hea : a.eval key store with
  | error t =>
      rw [hea] at hruna
      exact Activation.StopsBefore.mono hruna (by simp [Expr.code])
  | ok xs =>
      obtain ⟨x, s⟩ := xs
      rw [hea] at hruna
      obtain ⟨τ, hτ⟩ := hruna
      have hrunb := hb s L H hs.right.left hτ.at_ hτ.holds (H.depth_le hs.right.right)
      simp only [bind, Except.bind]
      cases heb : b.eval key s with
      | error t =>
          rw [heb] at hrunb
          exact (Activation.StopsBefore.after hrunb hτ.toEvolves).mono (by simp [Expr.code]; omega)
      | ok ys =>
          obtain ⟨y, s'⟩ := ys
          rw [heb] at hrunb
          obtain ⟨υ, hυ⟩ := hrunb
          obtain ⟨φ, hφ, hat, hholds, hx, hy⟩ := H.operands L hs.right.right hτ hυ
          have hruno := ho x y H hs.right.right.right.left hat hx hy
          simp only
          cases heo : op.eval x y with
          | error t =>
              rw [heo] at hruno
              exact (Activation.StopsBefore.after hruno hφ).mono (by simp [Expr.code]; omega)
          | ok w =>
              rw [heo] at hruno
              obtain ⟨ψ, ρ, hψ, hpc, rfl, hrcx⟩ := hruno
              obtain ⟨χ, hχ⟩ := H.push hs.right.right.right.right hψ.at_ hd
                (w := ψ.registers.rax) rfl
              rw [hψ.memory, hψ.registers] at hχ
              refine ⟨χ, (hφ.yields L hd hholds (hψ.trans hχ) (by omega) hrcx).moved ?_⟩
              simp [Expr.code]
              omega

theorem assign_runs {key : VarRef → κ} {r : VarRef} {e : Expr} {n : Store κ → Nat}
    (location : Location) (he : (Expr.assign location r e).All P N)
    (h : ∀ s, e.Runs key P s (n s)) (store : Store κ) :
    ∃ n, (Expr.assign location r e).Runs key P store n := by
  refine ⟨match e.eval key store with
    | .error _ => 2 + n store
    | .ok _ => 2 + n store + 2 + 1 + 1,
    fun {A l code i d σ} L H hs hσ hstore hd => ?_⟩
  obtain ⟨τ, hτ⟩ := H.address L hs.left hσ hstore hd
  have hrun := h store L H hs.right.left hτ.at_ hτ.holds (H.depth_le hs.right.right)
  rw [eval]
  cases hev : e.eval key store with
  | error t =>
      rw [hev] at hrun
      exact (Activation.StopsBefore.after hrun hτ.toEvolves).mono
        (by simp [Expr.code]; omega)
  | ok ws =>
      obtain ⟨w, s⟩ := ws
      rw [hev] at hrun
      obtain ⟨υ, hυ⟩ := hrun
      obtain ⟨φ, hφ, hat, hholds, hx, hy⟩ := H.operands L hs.right.right hτ hυ
      have hall := he.mono L.inside fun _ => id
      have hstores : Activation.Stores code A.size
          (i + codeSize (r.addressCode d) + codeSize (e.code (d + 1)) + 2) r :=
        ⟨location, e, ⟨d, 0⟩, _, _, i, Expr.emit_ok hall d 0, hs, by simp [Expr.code]; omega⟩
      obtain ⟨ψ, hψ⟩ := H.store hs.right.right.next.next hat hstores (L.owned r he.1) hx
      obtain ⟨χ, hχ⟩ := H.push hs.right.right.next.next.next hψ.at_ hd
        (w := ψ.registers.rdi) rfl
      rw [hy] at hψ
      rw [hψ.registers, hy] at hχ
      have hstored := hφ.trans
        (hψ.evolves (by rw [hat.pc]; rfl) (.write_word he.1 w) rfl) le_rfl
      have hholds' := hψ.memory ▸ hholds.write_word L he.1 w
      refine ⟨χ, (hstored.yields L hd hholds' hχ (by rw [hψ.at_.pc]; rfl)
        (by rw [hψ.registers])).moved ?_⟩
      simp [Expr.code, VarRef.addressCode]
      omega

/-- The code of an expression takes a number of steps that does not depend on where it stands. -/
theorem runs (key : VarRef → κ) (e : Expr) (he : e.All P N) (store : Store κ) :
    ∃ n, e.Runs key P store n := by
  induction e generalizing store with
  | number location value =>
      refine ⟨0 + codeSize (numberCode value 0), fun L H hs hσ hstore hd => ?_⟩
      obtain ⟨τ, ρ, h, hρ⟩ := H.number hs hσ hd
      refine ⟨τ, (Activation.Evolves.refl _).yields L hd hstore h ?_ hρ⟩
      rw [hσ.pc, Nat.cast_add, codeSize, (number location value).instrsOf_code _ 0]
      rfl
  | var r =>
      refine ⟨5, fun L H hs hσ hstore hd => ?_⟩
      obtain ⟨τ, h⟩ := H.address L hs.left hσ hstore hd
      exact H.load L he hs.right hd h
  | binary location op a b iha ihb =>
      choose na ha using iha he.1
      choose nb hb using ihb he.2
      exact binary_runs location ha hb store
  | assign location r e ih =>
      choose n h using ih he.2
      exact assign_runs location he h store
  | bare location => exact he.elim

end Expr

end StackLang
