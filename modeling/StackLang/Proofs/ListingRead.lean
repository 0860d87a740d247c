import StackLang.Proofs.ListingLine
import StackLang.Proofs.Placement

/-!
# Reading routines back

The text of a routine is a listing with the instructions of the routine in their order, and every
label at the place where it stands. The lines must be readable, the labels distinct, and every
jump must go to one of them.
-/

namespace StackLang

open Text

namespace Text

theorem joinReturns_cons {c : Char} (h : c ≠ '\r') (cs : List Char) :
    joinReturns (c :: cs) = c :: joinReturns cs := by
  rw [joinReturns]
  intro cs' hc
  exact absurd hc h

theorem joinReturns_append {t : List Char} (h : '\r' ∉ t) (cs : List Char) :
    joinReturns (t ++ '\n' :: cs) = t ++ '\n' :: joinReturns cs := by
  induction t with
  | nil => exact joinReturns_cons (by decide) cs
  | cons c t ih =>
      have hc : c ≠ '\r' := fun hc => h (hc ▸ List.mem_cons_self)
      rw [List.cons_append, joinReturns_cons hc, ih fun hmem => h (List.mem_cons_of_mem c hmem)]
      rfl

/-- A line feed ends the first line. -/
theorem lines_append {t : List Char} (h : ∀ c ∈ t, isLineEnd c = false) (cs : List Char) :
    lines (t ++ '\n' :: cs) = t :: lines cs := by
  have hreturn : '\r' ∉ t := fun hc => absurd (h _ hc) (by decide)
  have hne : (joinReturns cs).splitOnP isLineEnd ≠ [] := List.splitOnP_ne_nil _ _
  simp only [lines, joinReturns_append hreturn,
    List.splitOnP_append_cons_of_forall_mem h '\n' (by decide), List.getLast?_cons_of_ne_nil hne,
    List.dropLast_cons_of_ne_nil hne]
  split <;> rfl

/-- Lines written one after the other are read one after the other. -/
theorem lines_flatMap {ts : List (List Char)} (h : ∀ t ∈ ts, ∀ c ∈ t, isLineEnd c = false) :
    lines (ts.flatMap (· ++ ['\n'])) = ts := by
  induction ts with
  | nil => rfl
  | cons t ts ih =>
      rw [List.flatMap_cons, List.append_assoc, List.singleton_append,
        lines_append (h t List.mem_cons_self), ih fun t' ht' => h t' (List.mem_cons_of_mem t ht')]

theorem intercalate_concat {ts : List (List Char)} (hne : ts ≠ []) (sep : List Char) :
    sep.intercalate ts ++ sep = ts.flatMap (· ++ sep) := by
  obtain ⟨t, ts, rfl⟩ := List.exists_cons_of_ne_nil hne
  induction ts generalizing t with
  | nil => rw [List.intercalate_singleton, List.flatMap_singleton]
  | cons u us ih =>
      rw [List.intercalate_cons_cons, List.append_assoc, ih u (by simp)]
      rfl

end Text

/-! ## Labels -/

namespace LabelTable

theorem find?_put_self {t : LabelTable} {name : String} (h : t.contains name = false)
    (index : Int) : (t.put name index).find? name = some index := by
  have hnone : t.entries.find? (fun e => e.1 == name) = none := by
    simpa [contains, find?] using h
  simp [put, h, find?, hnone]

theorem find?_put_of_ne {t : LabelTable} {name other : String} (h : t.contains name = false)
    (hne : other ≠ name) (index : Int) : (t.put name index).find? other = t.find? other := by
  have hother : (name == other) = false := by simpa using hne.symm
  simp [put, h, find?, hother]

end LabelTable

def Line.label? : Line → Option String
  | .label name => some name
  | _ => none

/-- The labels of some code in order. -/
def labelsOf (code : List Emission) : List String :=
  code.filterMap fun e => e.line.label?

@[simp] theorem labelsOf_append (a b : List Emission) :
    labelsOf (a ++ b) = labelsOf a ++ labelsOf b :=
  List.filterMap_append

@[simp] theorem labelsOf_nil : labelsOf [] = [] := rfl

@[simp] theorem labelsOf_label (name : String) (rest : List Emission) :
    labelsOf (Emission.label name :: rest) = name :: labelsOf rest := rfl

@[simp] theorem labelsOf_instr (d : Nat) (m : Mnemonic) (ops : List Operand)
    (rest : List Emission) : labelsOf (Emission.instr d m ops :: rest) = labelsOf rest := rfl

@[simp] theorem labelsOf_remark (comments : Bool) (text : String) :
    labelsOf (remark comments text) = [] := by
  cases comments <;> rfl

/-! ## Lines in order -/

namespace Listing

/-- The listing with the lines of some code added. -/
def afterCode (l : Listing) (number : Nat) : List Emission → Listing
  | [] => l
  | e :: rest => (l.afterLine number e.line).afterCode (number + 1) rest

theorem afterCode_append (l : Listing) (number : Nat) (a b : List Emission) :
    l.afterCode number (a ++ b) = (l.afterCode number a).afterCode (number + a.length) b := by
  induction a generalizing l number with
  | nil => rfl
  | cons e a ih =>
      rw [List.cons_append, afterCode, ih, afterCode, List.length_cons]
      congr 1
      omega

theorem instrs_afterCode (l : Listing) (number : Nat) (code : List Emission) :
    (l.afterCode number code).instructions.toList.map PlacedInstr.instr =
      l.instructions.toList.map PlacedInstr.instr ++ instrsOf code := by
  induction code generalizing l number with
  | nil => simp [afterCode]
  | cons e code ih =>
      rw [afterCode, ih]
      obtain ⟨d, line⟩ := e
      cases line <;> simp [afterLine, instrsOf, Line.instr?]

theorem size_afterCode (l : Listing) (number : Nat) (code : List Emission) :
    (l.afterCode number code).instructions.size = l.instructions.size + codeSize code := by
  have h := congrArg List.length (instrs_afterCode l number code)
  simpa [codeSize] using h

theorem entry_afterCode {l : Listing} {name : String} (h : l.entry = some name) (number : Nat)
    (code : List Emission) : (l.afterCode number code).entry = some name := by
  induction code generalizing l number with
  | nil => exact h
  | cons e code ih =>
      refine ih ?_ _
      obtain ⟨d, line⟩ := e
      cases line <;> simp [afterLine, h]

/-- The labels of the code are distinct and not yet defined. -/
def Fresh (l : Listing) (code : List Emission) : Prop :=
  (labelsOf code).Nodup ∧ ∀ name ∈ labelsOf code, l.labels.contains name = false

theorem labelsOf_cons (e : Emission) (rest : List Emission) :
    labelsOf (e :: rest) = e.line.label?.toList ++ labelsOf rest := by
  unfold labelsOf
  cases h : e.line.label? <;> simp [h]

theorem find?_afterLine (l : Listing) (number : Nat) {line : Line} {name : String}
    (h : ∀ other, line = .label other → l.labels.contains other = false ∧ name ≠ other) :
    (l.afterLine number line).labels.find? name = l.labels.find? name := by
  cases line with
  | label other => exact LabelTable.find?_put_of_ne (h other rfl).1 (h other rfl).2 _
  | intelDirective => rfl
  | global other => rfl
  | comment text => rfl
  | instr i => rfl

theorem Fresh.head {l : Listing} {e : Emission} {rest : List Emission} (h : l.Fresh (e :: rest))
    {name : String} (he : e.line = .label name) :
    l.labels.contains name = false ∧ name ∉ labelsOf rest := by
  have hlabels : labelsOf (e :: rest) = name :: labelsOf rest := by
    rw [labelsOf_cons, he]
    rfl
  have hnodup := h.1
  rw [hlabels, List.nodup_cons] at hnodup
  exact ⟨h.2 name (by simp [hlabels]), hnodup.1⟩

theorem Fresh.tail {l : Listing} {e : Emission} {rest : List Emission} (h : l.Fresh (e :: rest))
    (number : Nat) : (l.afterLine number e.line).Fresh rest := by
  refine ⟨?_, fun name hname => ?_⟩
  · have hnodup := h.1
    rw [labelsOf_cons] at hnodup
    exact (List.nodup_append.mp hnodup).2.1
  · have hold : l.labels.contains name = false := h.2 name (by simp [labelsOf_cons, hname])
    rw [LabelTable.contains, find?_afterLine l number fun other hother => ?_]
    · exact hold
    · have hhead := h.head hother
      exact ⟨hhead.1, fun heq => hhead.2 (heq ▸ hname)⟩

theorem find?_afterCode {l : Listing} {code : List Emission} (h : l.Fresh code) {name : String}
    (hname : name ∉ labelsOf code) (number : Nat) :
    (l.afterCode number code).labels.find? name = l.labels.find? name := by
  induction code generalizing l number with
  | nil => rfl
  | cons e code ih =>
      rw [labelsOf_cons, List.mem_append, not_or] at hname
      rw [afterCode, ih (h.tail number) hname.2, find?_afterLine l number fun other hother => ?_]
      refine ⟨(h.head hother).1, fun heq => hname.1 ?_⟩
      simp [hother, Line.label?, heq]

theorem Fresh.right {l : Listing} {a b : List Emission} (h : l.Fresh (a ++ b)) (number : Nat) :
    (l.afterCode number a).Fresh b := by
  induction a generalizing l number with
  | nil => exact h
  | cons e a ih => exact ih (h.tail number) _

/-- A label names the place where it stands. -/
theorem find?_label {l : Listing} {before after : List Emission} {e : Emission} {name : String}
    (h : l.Fresh (before ++ e :: after)) (he : e.line = .label name) (number : Nat) :
    (l.afterCode number (before ++ e :: after)).labels.find? name =
      some ((l.instructions.size + codeSize before : Nat) : Int) := by
  have hlabel := h.right number
  obtain ⟨hnew, hlater⟩ := hlabel.head he
  rw [afterCode_append, afterCode, find?_afterCode (hlabel.tail _) hlater,
    ← size_afterCode l number before, he]
  exact LabelTable.find?_put_self hnew _

theorem contains_label {l : Listing} {code : List Emission} (h : l.Fresh code) {name : String}
    (hname : name ∈ labelsOf code) (number : Nat) :
    (l.afterCode number code).labels.contains name = true := by
  obtain ⟨e, he, hlabel⟩ := List.mem_filterMap.mp hname
  have hline : e.line = .label name := by
    cases hcase : e.line with
    | label other => simpa [hcase, Line.label?] using hlabel
    | intelDirective => simp [hcase, Line.label?] at hlabel
    | global other => simp [hcase, Line.label?] at hlabel
    | comment text => simp [hcase, Line.label?] at hlabel
    | instr i => simp [hcase, Line.label?] at hlabel
  obtain ⟨before, after, rfl⟩ := List.append_of_mem he
  rw [LabelTable.contains, find?_label h hline]
  rfl

/-- Readable lines are read one after the other. -/
theorem readLines_code {l : Listing} {code : List Emission} (h : ∀ e ∈ code, e.line.Readable)
    (hfresh : l.Fresh code) (number : Nat) :
    readLines l number (code.map fun e => e.line.text.toList) = .ok (l.afterCode number code) := by
  induction code generalizing l number with
  | nil => rfl
  | cons e code ih =>
      rw [List.map_cons, readLines, readLine_text l number (h e (by simp)) fun name hname =>
        (hfresh.head hname).1]
      exact ih (fun e' he' => h e' (by simp [he'])) (hfresh.tail number) _

theorem danglingJump?_eq_none_iff {l : Listing} :
    l.danglingJump? = none ↔ ∀ i ∈ l.instructions.toList.map PlacedInstr.instr,
      ∀ name, i.target? = some name → l.labels.contains name = true := by
  rw [List.forall_mem_map, danglingJump?, Array.findSome?_eq_none_iff]
  simp only [← Array.mem_def]
  refine forall₂_congr fun p _ => ?_
  cases p.instr.target? <;> simp

end Listing

/-! ## Routines -/

theorem Routine.toList_text (r : Routine) (hne : r.code ≠ []) :
    r.text.toList = (r.code.map fun e => e.line.text.toList).flatMap (· ++ ['\n']) := by
  rw [← intercalate_concat (by simpa using hne), Routine.text, String.toList_append,
    String.toList_intercalate, List.map_map]
  rfl

/-- Code that can be written down and read again. -/
structure ReadableCode (code : List Emission) : Prop where
  ne_nil : code ≠ []
  line : ∀ e ∈ code, e.line.Readable
  distinct : (labelsOf code).Nodup
  defined : ∀ i ∈ instrsOf code, ∀ name, i.target? = some name → name ∈ labelsOf code

namespace ReadableCode

variable {code : List Emission}

theorem fresh (h : ReadableCode code) (filename : String) :
    Listing.Fresh { filename := filename } code :=
  ⟨h.distinct, fun _ _ => rfl⟩

theorem danglingJump?_eq_none (h : ReadableCode code) (filename : String) :
    (Listing.afterCode { filename := filename } 1 code).danglingJump? = none := by
  rw [Listing.danglingJump?_eq_none_iff, Listing.instrs_afterCode]
  intro i hi name hname
  exact Listing.contains_label (h.fresh filename) (h.defined i (by simpa using hi) name hname) 1

theorem lines_text (h : ReadableCode code) {labels : Nat} {frame : Int} :
    lines (Routine.mk code labels frame).text.toList =
      code.map fun e => e.line.text.toList := by
  rw [Routine.toList_text _ h.ne_nil]
  refine lines_flatMap fun t ht => ?_
  obtain ⟨e, he, rfl⟩ := List.mem_map.mp ht
  exact (h.line e he).text_oneLine

/-- The text of a routine is read back as its instructions and labels. -/
theorem read_text (h : ReadableCode code) (labels : Nat) (frame : Int) (filename : String) :
    Listing.read (Routine.mk code labels frame).text filename =
      .ok (Listing.afterCode { filename := filename } 1 code) := by
  rw [Listing.read, h.lines_text, Listing.readLines_code h.line (h.fresh filename)]
  simp only [bind, Except.bind, h.danglingJump?_eq_none]
  rfl

theorem loaded (h : ReadableCode code) (filename : String) :
    Loaded (Listing.afterCode { filename := filename } 1 code) code where
  instr := by
    intro i ins hins
    have hmap := Listing.instrs_afterCode { filename := filename } 1 code
    have hget : ((Listing.afterCode { filename := filename } 1 code).instructions.toList.map
        PlacedInstr.instr)[i]? = some ins := by
      rw [hmap]
      simpa using hins
    rw [List.getElem?_map, Option.map_eq_some_iff] at hget
    simpa using hget
  label := by
    intro i name rest hi
    obtain ⟨before, after, rfl, rfl⟩ := hi
    have hfind := Listing.find?_label (h.fresh filename) rfl 1
    simpa using hfind

end ReadableCode

end StackLang
