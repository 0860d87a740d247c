import Mathlib.Tactic
import StackLang.Slot

/-!
# Slot tables

What declaring names does to a table, and why the frame covers every slot of it.
-/

namespace StackLang.SlotTable

/-- Declares names one after the other. -/
def declareAll (t : SlotTable) (names : List String) : SlotTable :=
  names.foldl (fun t name => (t.declare name).2) t

@[simp] theorem declareAll_nil (t : SlotTable) : t.declareAll [] = t := rfl

@[simp] theorem declareAll_cons (t : SlotTable) (name : String) (names : List String) :
    t.declareAll (name :: names) = (t.declare name).2.declareAll names := rfl

theorem declareAll_append (t : SlotTable) (ms ns : List String) :
    t.declareAll (ms ++ ns) = (t.declareAll ms).declareAll ns :=
  List.foldl_append

theorem name_of_find? {t : SlotTable} {name : String} {slot : Slot}
    (h : t.find? name = some slot) : slot.name = name := by
  have hp := List.find?_some h
  simpa using hp

theorem declare_of_some {t : SlotTable} {name : String} {slot : Slot}
    (h : t.find? name = some slot) : t.declare name = (slot, t) := by
  simp [declare, h]

theorem declare_of_none {t : SlotTable} {name : String} (h : t.find? name = none) :
    t.declare name =
      (⟨name, (t.size + 1) * wordSize⟩, ⟨t.slots ++ [⟨name, (t.size + 1) * wordSize⟩]⟩) := by
  simp [declare, h]

theorem name_of_declare (t : SlotTable) (name : String) : (t.declare name).1.name = name := by
  cases h : t.find? name with
  | none => simp [declare_of_none h]
  | some slot => simpa [declare_of_some h] using name_of_find? h

/-- A name that was declared has the slot it was given. -/
theorem find?_declare_self (t : SlotTable) (name : String) :
    (t.declare name).2.find? name = some (t.declare name).1 := by
  cases h : t.find? name with
  | none =>
      have hslots : t.slots.find? (fun s => s.name == name) = none := h
      simp [declare_of_none h, find?, List.find?_append, hslots]
  | some slot => simp [declare_of_some h, h]

/-- A slot once given stays. -/
theorem find?_declare_of_some {t : SlotTable} {name : String} {slot : Slot}
    (h : t.find? name = some slot) (other : String) :
    (t.declare other).2.find? name = some slot := by
  cases ho : t.find? other with
  | none =>
      have hslots : t.slots.find? (fun s => s.name == name) = some slot := h
      simp [declare_of_none ho, find?, List.find?_append, hslots]
  | some _ => simpa [declare_of_some ho] using h

theorem find?_declareAll_of_some {t : SlotTable} {name : String} {slot : Slot}
    (h : t.find? name = some slot) (names : List String) :
    (t.declareAll names).find? name = some slot := by
  induction names generalizing t with
  | nil => exact h
  | cons other names ih => exact ih (find?_declare_of_some h other)

theorem size_declare_le (t : SlotTable) (name : String) : (t.declare name).2.size ≤ t.size + 1 := by
  cases h : t.find? name with
  | none => simp [declare_of_none h, size]
  | some slot => simp [declare_of_some h]

theorem size_declareAll_le (t : SlotTable) (names : List String) :
    (t.declareAll names).size ≤ t.size + names.length := by
  induction names generalizing t with
  | nil => simp
  | cons name names ih =>
      have hfirst := t.size_declare_le name
      have hrest := ih (t.declare name).2
      rw [declareAll_cons, List.length_cons]
      omega

theorem isSome_find?_declareAll {name : String} {names : List String} (h : name ∈ names)
    (t : SlotTable) : ((t.declareAll names).find? name).isSome := by
  induction names generalizing t with
  | nil => cases h
  | cons other names ih =>
      rcases List.mem_cons.mp h with rfl | hmem
      · rw [declareAll_cons, find?_declareAll_of_some (find?_declare_self t name)]
        rfl
      · exact ih hmem _

/-! ## Tables in sequence -/

/-- The slots are numbered one after the other, and no name has two of them. -/
structure Sequential (t : SlotTable) : Prop where
  offset : ∀ (i : Nat) (slot : Slot), t.slots[i]? = some slot → slot.offset = (i + 1) * wordSize
  names : (t.slots.map Slot.name).Nodup

theorem sequential_empty : Sequential {} where
  offset := by simp
  names := List.nodup_nil

theorem not_mem_names_of_find?_none {t : SlotTable} {name : String} (h : t.find? name = none) :
    name ∉ t.slots.map Slot.name := by
  intro hmem
  obtain ⟨slot, hslot, rfl⟩ := List.mem_map.mp hmem
  have hne := List.find?_eq_none.mp h slot hslot
  simp at hne

theorem Sequential.declare {t : SlotTable} (ht : t.Sequential) (name : String) :
    (t.declare name).2.Sequential := by
  cases h : t.find? name with
  | some slot => simpa [declare_of_some h] using ht
  | none =>
      rw [declare_of_none h]
      constructor
      · intro i slot hi
        rcases Nat.lt_or_ge i t.slots.length with hlt | hge
        · rw [List.getElem?_append_left hlt] at hi
          exact ht.offset i slot hi
        · rw [List.getElem?_append_right hge] at hi
          have hzero : i - t.slots.length = 0 := by
            have := (List.getElem?_eq_some_iff.mp hi).choose
            simp at this
            omega
          rw [hzero] at hi
          cases hi
          have hlen : i = t.size := by simp only [size]; omega
          simp [hlen]
      · have hnew := not_mem_names_of_find?_none h
        simp only [List.map_append, List.map_cons, List.map_nil]
        exact List.Nodup.append ht.names (List.nodup_singleton _)
          (by simpa [List.Disjoint] using hnew)

theorem Sequential.declareAll {t : SlotTable} (ht : t.Sequential) (names : List String) :
    (t.declareAll names).Sequential := by
  induction names generalizing t with
  | nil => exact ht
  | cons name names ih => exact ih (ht.declare name)

theorem mem_slots_of_find? {t : SlotTable} {name : String} {slot : Slot}
    (h : t.find? name = some slot) : slot ∈ t.slots :=
  List.mem_of_find?_eq_some h

theorem Sequential.offset_mem {t : SlotTable} (ht : t.Sequential) {slot : Slot}
    (h : slot ∈ t.slots) : 0 < slot.offset ∧ slot.offset ≤ t.size * wordSize := by
  obtain ⟨i, hi⟩ := List.getElem?_of_mem h
  have hlt : i < t.slots.length := (List.getElem?_eq_some_iff.mp hi).choose
  have ho := ht.offset i slot hi
  simp only [size, wordSize] at *
  omega

/-- Slots at the same distance are the same slot. -/
theorem Sequential.eq_of_offset_eq {t : SlotTable} (ht : t.Sequential) {a b : Slot}
    (ha : a ∈ t.slots) (hb : b ∈ t.slots) (h : a.offset = b.offset) : a = b := by
  obtain ⟨i, hi⟩ := List.getElem?_of_mem ha
  obtain ⟨j, hj⟩ := List.getElem?_of_mem hb
  have hij : i = j := by
    have hoi := ht.offset i a hi
    have hoj := ht.offset j b hj
    simp only [wordSize] at hoi hoj
    omega
  subst hij
  exact Option.some.inj (hi.symm.trans hj)

/-- Different names have different slots. -/
theorem Sequential.offset_eq_iff {t : SlotTable} (ht : t.Sequential) {m n : String} {a b : Slot}
    (ha : t.find? m = some a) (hb : t.find? n = some b) : a.offset = b.offset ↔ m = n := by
  constructor
  · intro h
    have hab := ht.eq_of_offset_eq (mem_slots_of_find? ha) (mem_slots_of_find? hb) h
    rw [← name_of_find? ha, ← name_of_find? hb, hab]
  · rintro rfl
    rw [Option.some.inj (ha.symm.trans hb)]

/-! ## Frames -/

theorem frameSize?_of_pos (t : SlotTable) {alignment : Int} (h : 0 < alignment) :
    t.frameSize? alignment =
      some (((t.size * wordSize : Nat) + alignment - 1) / alignment * alignment) := by
  have hne : alignment ≠ 0 := by omega
  rw [frameSize?, if_neg hne, Int.fdiv_eq_ediv_of_nonneg _ (by omega)]

/-- The frame holds all slots and is a multiple of the alignment. -/
theorem frameSize?_covers {t : SlotTable} {alignment frame : Int} (h : 0 < alignment)
    (hf : t.frameSize? alignment = some frame) :
    (t.size * wordSize : Nat) ≤ frame ∧ alignment ∣ frame := by
  rw [frameSize?_of_pos t h] at hf
  obtain rfl := Option.some.inj hf
  generalize ((t.size * wordSize : Nat) : Int) = n
  refine ⟨?_, dvd_mul_left _ _⟩
  have hdiv := Int.emod_add_mul_ediv (n + alignment - 1) alignment
  have hmod := Int.emod_lt_of_pos (n + alignment - 1) h
  rw [mul_comm] at hdiv
  omega

/-- The frame is less than one alignment larger than it must be. -/
theorem frameSize?_lt {t : SlotTable} {alignment frame : Int} (h : 0 < alignment)
    (hf : t.frameSize? alignment = some frame) : frame < (t.size * wordSize : Nat) + alignment := by
  rw [frameSize?_of_pos t h] at hf
  obtain rfl := Option.some.inj hf
  have hle := Int.ediv_mul_le ((t.size * wordSize : Nat) + alignment - 1) (ne_of_gt h)
  omega

/-- Only a table without slots needs no frame. -/
theorem frameSize?_eq_zero_iff {t : SlotTable} {alignment frame : Int} (h : 0 < alignment)
    (hf : t.frameSize? alignment = some frame) : frame = 0 ↔ t.size = 0 := by
  obtain ⟨hcovers, hdvd⟩ := frameSize?_covers h hf
  have hlt := frameSize?_lt h hf
  push_cast [wordSize] at hcovers hlt
  refine ⟨fun hzero => by omega, fun hzero => ?_⟩
  exact Int.eq_zero_of_dvd_of_nonneg_of_lt (by omega) (by omega) hdvd

theorem Sequential.offset_inFrame {t : SlotTable} (ht : t.Sequential) {alignment frame : Int}
    (h : 0 < alignment) (hf : t.frameSize? alignment = some frame) {slot : Slot}
    (hslot : slot ∈ t.slots) : 0 < slot.offset ∧ slot.offset ≤ frame := by
  have hcovers := (frameSize?_covers h hf).1
  have hoffset := ht.offset_mem hslot
  push_cast at hcovers
  omega

end StackLang.SlotTable
