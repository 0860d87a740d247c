import StackLang.Proofs.SlotOrder

/-!
# The history of a slot table

A table only grows, so a slot once given stays where it is. The frame is the least multiple of the
alignment that has room for all slots, and growing with the table follows from its being the least.
-/

namespace StackLang.SlotTable

theorem slots_prefix_declare (t : SlotTable) (name : String) :
    t.slots <+: (t.declare name).2.slots := by
  cases h : t.find? name with
  | none =>
      rw [declare_of_none h]
      exact List.prefix_append _ _
  | some slot => rw [declare_of_some h]

theorem slots_prefix_declareAll (t : SlotTable) (names : List String) :
    t.slots <+: (t.declareAll names).slots := by
  induction names generalizing t with
  | nil => exact List.prefix_refl _
  | cons name names ih => exact (t.slots_prefix_declare name).trans (ih _)

theorem size_le_declareAll (t : SlotTable) (names : List String) :
    t.size ≤ (t.declareAll names).size :=
  (t.slots_prefix_declareAll names).length_le

/-- The table in which the names were declared, one after the other. -/
def ofNames (names : List String) : SlotTable :=
  ({} : SlotTable).declareAll names

theorem ofNames_append (names more : List String) :
    ofNames (names ++ more) = (ofNames names).declareAll more :=
  declareAll_append _ _ _

/-- The slot that a name was given at any of its declarations is the one it has from then on. -/
theorem find?_ofNames (before : List String) (name : String) (after : List String) :
    (ofNames (before ++ name :: after)).find? name = some ((ofNames before).declare name).1 := by
  rw [ofNames_append, declareAll_cons]
  exact find?_declareAll_of_some (find?_declare_self _ name) after

/-! ## The least frame -/

/-- The sizes that a frame may have: multiples of the alignment with room for all slots. -/
def Roomy (t : SlotTable) (alignment : Int) : Set Int :=
  {bytes | alignment ∣ bytes ∧ 8 * t.size ≤ bytes}

theorem frameSize?_isLeast {t : SlotTable} {alignment frame : Int} (h : 0 < alignment)
    (hf : t.frameSize? alignment = some frame) : IsLeast (t.Roomy alignment) frame := by
  obtain ⟨hcovers, hdvd⟩ := frameSize?_covers h hf
  have hlt := frameSize?_lt h hf
  push_cast [wordSize] at hcovers hlt
  refine ⟨⟨hdvd, by omega⟩, ?_⟩
  rintro bytes ⟨hbytes, hroom⟩
  by_contra hnot
  have happart : alignment ≤ frame - bytes := Int.le_of_dvd (by omega) (dvd_sub hdvd hbytes)
  omega

theorem Roomy.antitone {t t' : SlotTable} (h : t.size ≤ t'.size) (alignment : Int) :
    t'.Roomy alignment ⊆ t.Roomy alignment := by
  rintro bytes ⟨hdvd, hroom⟩
  exact ⟨hdvd, by omega⟩

/-- Names that are declared one after the other. The slots are those of the distinct names by first
appearance, a word apart. A name has the slot that it was given when it was declared, whatever was
declared later, and looking it up or declaring it again changes nothing. The frame is the least
multiple of the alignment that has room for all slots. It does not shrink, and no slot is outside of
it. -/
theorem ofNames_history (names : List String) :
    (ofNames names).slots = names.eraseDups.mapIdx (fun i name => ⟨name, 8 * (i + 1)⟩) ∧
    (∀ before name after, names = before ++ name :: after →
      (ofNames names).find? name = some ((ofNames before).declare name).1 ∧
      (ofNames names).declare name = (((ofNames before).declare name).1, ofNames names)) ∧
    ∀ alignment : Int, 1 ≤ alignment → ∃ frame,
      (ofNames names).frameSize? alignment = some frame ∧
      IsLeast {bytes | alignment ∣ bytes ∧ 8 * (ofNames names).size ≤ bytes} frame ∧
      (∀ more, ∃ larger, (ofNames (names ++ more)).frameSize? alignment = some larger ∧
        frame ≤ larger) ∧
      ∀ slot ∈ (ofNames names).slots, 8 ≤ slot.offset ∧ slot.offset ≤ frame := by
  refine ⟨slots_declareAll names, ?_, ?_⟩
  · rintro before name after rfl
    have hfind := find?_ofNames before name after
    exact ⟨hfind, declare_of_some hfind⟩
  · intro alignment halign
    have hpos : 0 < alignment := by omega
    have hframe := (ofNames names).frameSize?_of_pos hpos
    have hleast := frameSize?_isLeast hpos hframe
    refine ⟨_, hframe, hleast, fun more => ?_, fun slot hslot => ?_⟩
    · have hlarger := (ofNames (names ++ more)).frameSize?_of_pos hpos
      have hroom := (frameSize?_isLeast hpos hlarger).1
      have hsize : (ofNames names).size ≤ (ofNames (names ++ more)).size := by
        rw [ofNames_append]
        exact (ofNames names).size_le_declareAll more
      exact ⟨_, hlarger, hleast.2 (Roomy.antitone hsize alignment hroom)⟩
    · have hseq : (ofNames names).Sequential := sequential_empty.declareAll names
      obtain ⟨i, hi⟩ := List.getElem?_of_mem hslot
      have hoffset := hseq.offset i slot hi
      have hinside := (hseq.offset_inFrame hpos hframe hslot).2
      push_cast [wordSize] at hoffset
      exact ⟨by omega, hinside⟩

/-- Five names with two repeated, and an alignment that is not a power of two: the first name is
declared again after others and keeps its slot, and 24 bytes are rounded up to 28. -/
theorem ofNames_history_repeated :
    (ofNames ["z", "a", "z", "m", "a"]).slots = [⟨"z", 8⟩, ⟨"a", 16⟩, ⟨"m", 24⟩] ∧
      (ofNames ["z", "a", "z", "m", "a"]).declare "z" =
        (⟨"z", 8⟩, ofNames ["z", "a", "z", "m", "a"]) ∧
      (ofNames ["z", "a", "z", "m", "a"]).frameSize? 7 = some 28 ∧
      IsLeast {bytes : Int | 7 ∣ bytes ∧ 8 * (ofNames ["z", "a", "z", "m", "a"]).size ≤ bytes}
        28 := by
  obtain ⟨hslots, hstays, hframe⟩ := ofNames_history ["z", "a", "z", "m", "a"]
  obtain ⟨frame, hsize, hleast, -⟩ := hframe 7 (by decide)
  have hcomputed : (ofNames ["z", "a", "z", "m", "a"]).frameSize? 7 = some 28 := by decide
  obtain rfl : frame = 28 := Option.some.inj (hsize.symm.trans hcomputed)
  exact ⟨hslots.trans (by decide), (hstays [] "z" ["a", "z", "m", "a"] rfl).2, hcomputed, hleast⟩

end StackLang.SlotTable
