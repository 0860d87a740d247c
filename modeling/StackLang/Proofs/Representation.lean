import StackLang.Proofs.Masks
import StackLang.Proofs.Sessions

/-!
# Words for integers

States of the machine on unbounded integers and of the machine on words that stand for the same, and
executions that lead from such states to such states with the same faults.
-/

namespace StackLang

namespace Word

theorem lowByte_ofInt_toNat (value : Int) :
    Bits.and value Bits.lowByte = ((Word.ofInt value).lowByte.toNat : Int) := by
  have hand : (Word.ofInt value).lowByte.toNat = (Word.ofInt value).toNat % 256 := by
    rw [lowByte, BitVec.toNat_and]
    exact Nat.and_two_pow_sub_one_eq_mod _ 8
  rw [Bits.and_lowByte, hand, Int.natCast_mod, toNat_ofInt]
  omega

/-- What is left of a word without its low byte. -/
theorem without_lowByte (w : Word) :
    Bits.and (Bits.and w.toNat (~~~Bits.lowByte)) Bits.mask64 = ((w &&& ~~~0xFF).toNat : Int) := by
  have hclear : Bits.and w.toNat (~~~Bits.lowByte) = ((w &&& ~~~0xFF).toNat : Int) := by
    change ((Bits.without w.toNat 255 : Nat) : Int) = _
    congr 1
    apply Nat.eq_of_testBit_eq
    intro i
    rw [Bits.testBit_without, BitVec.testBit_toNat, BitVec.testBit_toNat, BitVec.getLsbD_and,
      BitVec.getLsbD_not]
    by_cases hi : i < 64
    · rw [decide_eq_true hi, Bool.true_and]
      rfl
    · rw [BitVec.getLsbD_of_ge _ _ (Nat.le_of_not_lt hi), Bool.false_and, Bool.false_and]
  rw [hclear, Bits.and_mask64_eq, ofInt_toNat]

/-- A low byte is put in by masks as it is in words. -/
theorem withLowByte_toNat (w : Word) (value : Int) :
    Bits.or (Bits.and (Bits.and w.toNat (~~~Bits.lowByte)) Bits.mask64)
      (Bits.and value Bits.lowByte) = ((w.withLowByte (Word.ofInt value)).toNat : Int) := by
  rw [without_lowByte, lowByte_ofInt_toNat, withLowByte, BitVec.toNat_or]
  rfl

end Word

/-! ## Register files -/

namespace Unbounded.Registers

variable {name : String} {value : Int}

theorem map_of_not_mem {r : Registers} (h : name ∉ r.map Prod.fst) :
    r.map (fun e => if e.1 == name then (name, value) else e) = r := by
  refine (List.map_congr_left fun e he => ?_).trans r.map_id
  have hne : e.1 ≠ name := by
    rintro rfl
    exact h (List.mem_map_of_mem he)
  rw [beq_eq_false_iff_ne.mpr hne]
  rfl

theorem set_append_left {a b : Registers} (ha : name ∈ a.map Prod.fst)
    (hb : name ∉ b.map Prod.fst) : (a ++ b).set name value = a.set name value ++ b := by
  have hab : name ∈ (a ++ b).map Prod.fst := by
    rw [List.map_append]
    exact List.mem_append_left _ ha
  rw [set, set, if_pos (any_name.mpr ha), if_pos (any_name.mpr hab), List.map_append,
    map_of_not_mem hb]

theorem set_append_right {a b : Registers} (ha : name ∉ a.map Prod.fst) :
    (a ++ b).set name value = a ++ b.set name value := by
  have hany : ((a ++ b).any fun e => e.1 == name) = b.any fun e => e.1 == name := by
    rw [List.any_append, Bool.eq_false_iff.mpr (mt any_name.mp ha), Bool.false_or]
  rw [set, set, hany, List.map_append, map_of_not_mem ha, List.append_assoc]
  split <;> rfl

theorem get?_append_right {a b : Registers} (ha : name ∉ a.map Prod.fst) :
    (a ++ b).get? name = b.get? name := by
  have hnone : (a.find? fun e => e.1 == name) = none := by
    rw [← Option.not_isSome_iff_eq_none, List.find?_isSome]
    rintro ⟨e, he, hname⟩
    exact ha (eq_of_beq hname ▸ List.mem_map_of_mem he)
  rw [get?, get?, List.find?_append, hnone, Option.none_or]

end Unbounded.Registers

namespace Registers

/-- The registers of the machine by name, with their words as numbers. -/
def fixed (r : Registers) : Unbounded.Registers :=
  [("rax", r.rax.toNat), ("rcx", r.rcx.toNat), ("rdi", r.rdi.toNat), ("rdx", r.rdx.toNat),
    ("rbp", r.rbp.toNat), ("rsp", r.rsp.toNat)]

/-- The registers that came into being by being written. -/
def written (r : Registers) : Unbounded.Registers :=
  r.extra.map fun e => (e.1, (e.2.toNat : Int))

/-- All registers by name, with their words as numbers. -/
def numbers (r : Registers) : Unbounded.Registers :=
  r.fixed ++ r.written

variable {r : Registers} {reg : Register}

theorem names_written (r : Registers) : r.written.map Prod.fst = r.extra.map Prod.fst := by
  rw [written, List.map_map]
  rfl

theorem names_fixed (r : Registers) :
    r.fixed.map Prod.fst = ["rax", "rcx", "rdi", "rdx", "rbp", "rsp"] := rfl

theorem not_mem_fixed {name : String} (h : Register.ofName? name = none) :
    name ∉ r.fixed.map Prod.fst := by
  have hknown : ∀ name ∈ ["rax", "rcx", "rdi", "rdx", "rbp", "rsp"],
      Register.ofName? name ≠ none := by
    decide
  exact fun hmem => hknown name hmem h

theorem Separate.not_mem_written (h : r.Separate) {name : String}
    (hname : Register.ofName? name ≠ none) : name ∉ r.written.map Prod.fst := by
  rw [names_written]
  intro hmem
  obtain ⟨e, he, rfl⟩ := List.mem_map.mp hmem
  exact hname (h.foreign e he)

theorem get?_numbers (hreg : reg.Settled) (hal : reg ≠ .al) :
    r.numbers.get? reg.name = (r.read? reg).map fun w => (w.toNat : Int) := by
  cases reg with
  | al => exact absurd rfl hal
  | other name =>
      have hfar : name ∉ r.fixed.map Prod.fst := not_mem_fixed (hreg name rfl)
      rw [numbers, Register.name, Unbounded.Registers.get?_append_right hfar, written,
        Unbounded.Registers.get?, List.find?_map, Option.map_map, read?, Option.map_map]
      rfl
  | _ => rfl

theorem set_written (r : Registers) (name : String) (w : Word) :
    r.written.set name w.toNat = (r.write (.other name) w).written := by
  have hany : (r.written.any fun e => e.1 == name) =
      (r.extra.find? fun e => e.1 == name).isSome := by
    rw [written, List.any_map, List.isSome_find?]
    rfl
  rw [Unbounded.Registers.set, hany, write]
  split
  · rw [written, written, List.map_map, List.map_map]
    refine List.map_congr_left fun e _ => ?_
    simp only [Function.comp_apply]
    split <;> rfl
  · rw [written, written, List.map_append]
    rfl

theorem fixed_write (r : Registers) (name : String) (w : Word) :
    (r.write (.other name) w).fixed = r.fixed := by
  rw [write]
  split <;> rfl

theorem Separate.set_numbers (h : r.Separate) (hreg : reg.Settled) (hal : reg ≠ .al) (w : Word) :
    r.numbers.set reg.name w.toNat = (r.write reg w).numbers := by
  cases reg with
  | al => exact absurd rfl hal
  | other name =>
      have hfar : name ∉ r.fixed.map Prod.fst := not_mem_fixed (hreg name rfl)
      rw [numbers, Register.name, Unbounded.Registers.set_append_right hfar, set_written,
        numbers, fixed_write]
  | _ =>
      rw [numbers, Unbounded.Registers.set_append_left (by rw [names_fixed]; decide)
        (h.not_mem_written (by decide))]
      rfl

end Registers

namespace Register

theorem settled_rax : Register.rax.Settled := settled_of_known (by decide)

theorem settled_rdx : Register.rdx.Settled := settled_of_known (by decide)

theorem settled_rsp : Register.rsp.Settled := settled_of_known (by decide)

end Register

/-- The register that the operand names, if any, is settled. -/
def Operand.Settled : Operand → Prop
  | .reg r | .mem r _ => r.Settled
  | .imm _ | .label _ => True

namespace Unbounded

open Bits

/-! ## States -/

/-- The integers and the words stand for the same. -/
structure Represents (s : State) (t : StackLang.State) : Prop where
  registers : s.registers = t.registers.numbers
  separate : t.registers.Separate
  memory : ∀ w : Word, s.memory[(w.toNat : Int)]? = t.memory.words[w]?.map fun v => (v.toNat : Int)
  flags : s.flags = t.flags
  pc : s.pc = t.pc
  steps : s.steps = t.steps
  halted : s.halted = t.halted

/-- The integer is the number that the word is. -/
def Exact (n : Int) (w : Word) : Prop :=
  n = w.toNat

/-- The integer becomes the word under a mask. -/
def Modular (n : Int) (w : Word) : Prop :=
  Word.ofInt n = w

section

variable {n m : Int} {v w : Word}

theorem Exact.modular (h : Exact n w) : Modular n w := by
  rw [Modular, h]
  exact Word.ofInt_toNat w

theorem Modular.exact (h : Modular n w) : Exact (Bits.and n mask64) w := by
  rw [Exact, and_mask64_eq, h]

theorem Modular.add (hn : Modular n v) (hm : Modular m w) : Modular (n + m) (v + w) := by
  rw [Modular, ← hn, ← hm]
  exact BitVec.ofInt_add n m

theorem Modular.sub (hn : Modular n v) (hm : Modular m w) : Modular (n - m) (v - w) := by
  rw [Modular, ← hn, ← hm, Int.sub_eq_add_neg, BitVec.sub_eq_add_neg]
  exact (BitVec.ofInt_add n (-m)).trans (congrArg _ BitVec.ofInt_neg)

/-- The mask of the sign finds the highest bit. -/
theorem Exact.signBit_iff (h : Exact n w) : Bits.and n signBit ≠ 0 ↔ w.msb = true := by
  have hlt : (w.toNat : Int) < 2 ^ 64 := by exact_mod_cast w.isLt
  rw [h, and_signBit (Int.natCast_nonneg _) hlt, BitVec.msb_eq_decide, decide_eq_true_iff]
  exact Int.ofNat_le (m := 2 ^ 63)

theorem Modular.toSigned_eq (h : Modular n w) : toSigned n = w.toInt := by
  rw [Bits.toSigned_eq, h]

end

namespace Represents

variable {s : State} {t : StackLang.State}

theorem store (h : Represents s t) {reg : Register} (hreg : reg.Settled) (hal : reg ≠ .al)
    {n : Int} {w : Word} (hn : Exact n w) :
    Represents { s with registers := s.registers.set reg.name n }
      { t with registers := t.registers.write reg w } := by
  have hset : s.registers.set reg.name n = (t.registers.write reg w).numbers := by
    rw [h.registers, hn]
    exact h.separate.set_numbers hreg hal w
  exact { h with registers := hset, separate := h.separate.write hreg w }

theorem insert (h : Represents s t) {a v : Int} {b w : Word} (ha : Exact a b) (hv : Exact v w) :
    Represents { s with memory := s.memory.insert a v }
      { t with memory := t.memory.write b w } := by
  refine { h with memory := fun x => ?_ }
  have hkey : compare a (x.toNat : Int) = .eq ↔ compare b x = .eq := by
    rw [ha, Std.LawfulEqCmp.compare_eq_iff_eq, Std.LawfulEqCmp.compare_eq_iff_eq, Nat.cast_inj,
      BitVec.toNat_inj]
  rw [Std.TreeMap.getElem?_insert, StackLang.Memory.write, Std.TreeMap.getElem?_insert]
  by_cases hx : compare b x = .eq
  · rw [if_pos hx, if_pos (hkey.mpr hx), hv]
    rfl
  · rw [if_neg hx, if_neg (mt hkey.mp hx)]
    exact h.memory x

theorem read (h : Represents s t) {a : Int} {b : Word} (ha : Exact a b) :
    Exact (s.memory.getD a 0) (t.memory.read b) := by
  rw [Exact, Std.TreeMap.getD_eq_getD_getElem?, ha, h.memory, StackLang.Memory.read,
    Std.TreeMap.getD_eq_getD_getElem?]
  cases t.memory.words[b]? <;> rfl

theorem initial : Represents {} {} where
  registers := rfl
  separate := Registers.separate_of_extra_nil rfl
  memory := fun _ => rfl
  flags := rfl
  pc := rfl
  steps := rfl
  halted := rfl

end Represents

/-! ## Simulations -/

section

variable {ε α β γ δ : Type} {R : α → β → Prop} {Q : γ → δ → Prop}

/-- Both executions end in the same way, with values that are related, in states that stand for the
same. -/
inductive Agree (R : α → β → Prop) :
    EStateM.Result ε State α → EStateM.Result ε StackLang.State β → Prop where
  | ok {a b s t} : R a b → Represents s t → Agree R (.ok a s) (.ok b t)
  | error {e s t} : Represents s t → Agree R (.error e s) (.error e t)

def Simulates (R : α → β → Prop) (x : EStateM ε State α) (y : EStateM ε StackLang.State β) : Prop :=
  ∀ s t, Represents s t → Agree R (x s) (y t)

theorem simulates_pure {a : α} {b : β} (h : R a b) :
    Simulates R (pure a : EStateM ε State α) (pure b) :=
  fun _ _ hst => .ok h hst

theorem simulates_throw (e : ε) : Simulates R (throw e : EStateM ε State α) (throw e) :=
  fun _ _ hst => .error hst

theorem simulates_throw_bind (e : ε) (f : γ → EStateM ε State α)
    (g : δ → EStateM ε StackLang.State β) :
    Simulates R ((throw e : EStateM ε State γ) >>= f) ((throw e) >>= g) :=
  fun _ _ hst => .error hst

theorem simulates_get : Simulates Represents (get : EStateM ε State State) get :=
  fun _ _ hst => .ok hst hst

theorem simulates_modify {f : State → State} {g : StackLang.State → StackLang.State}
    (h : ∀ s t, Represents s t → Represents (f s) (g t)) :
    Simulates Eq (modify f : EStateM ε State Unit) (modify g) :=
  fun s t hst => .ok rfl (h s t hst)

theorem Simulates.bind {x : EStateM ε State α} {y : EStateM ε StackLang.State β}
    {f : α → EStateM ε State γ} {g : β → EStateM ε StackLang.State δ} (hxy : Simulates R x y)
    (hfg : ∀ a b, R a b → Simulates Q (f a) (g b)) : Simulates Q (x >>= f) (y >>= g) := by
  intro s t hst
  have hfirst := hxy s t hst
  change Agree Q (EStateM.bind x f s) (EStateM.bind y g t)
  unfold EStateM.bind
  cases hx : x s with
  | ok a s' =>
      cases hy : y t with
      | ok b t' =>
          rw [hx, hy] at hfirst
          cases hfirst with
          | ok hab hst' => exact hfg a b hab s' t' hst'
      | error e t' =>
          rw [hx, hy] at hfirst
          cases hfirst
  | error e s' =>
      cases hy : y t with
      | ok b t' =>
          rw [hx, hy] at hfirst
          cases hfirst
      | error e' t' =>
          rw [hx, hy] at hfirst
          cases hfirst with
          | error hst' => exact .error hst'

end

end Unbounded

end StackLang
