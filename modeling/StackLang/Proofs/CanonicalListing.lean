import StackLang.Proofs.ListingShape

/-!
# Canonical listings

A listing that was read can be written in one way: the entry, then every instruction after the
labels that stand before it, and at last the labels at the end. That text is read as the same
listing, except for the lines on which the instructions stand.
-/

namespace StackLang

open Text

/-! ## The canonical text -/

/-- The labels at an index, in the order of their definition. -/
def LabelTable.namesAt (t : LabelTable) (index : Int) : List String :=
  (t.entries.filter fun e => e.2 = index).map Prod.fst

namespace Listing

/-- The lines of instructions from an index on, with the labels from there to the end. -/
def canonicalFrom (t : LabelTable) (index : Nat) : List Instr → List String
  | [] => (t.namesAt index).map (· ++ ":")
  | i :: rest => (t.namesAt index).map (· ++ ":") ++ i.text :: canonicalFrom t (index + 1) rest

def canonicalLines (l : Listing) : List String :=
  (l.entry.map (".globl " ++ ·)).toList ++
    canonicalFrom l.labels 0 (l.instructions.toList.map PlacedInstr.instr)

def canonicalText (l : Listing) : String :=
  String.join (l.canonicalLines.map (· ++ "\n"))

end Listing

/-! ## Labels in order -/

namespace LabelTable

variable {t : LabelTable}

theorem contains_eq_false_iff {name : String} :
    t.contains name = false ↔ name ∉ t.entries.map Prod.fst := by
  rw [contains, find?, Option.isSome_map, Option.isSome_eq_false_iff, Option.isNone_iff_eq_none,
    List.find?_eq_none, List.mem_map]
  simp only [beq_iff_eq, not_exists, not_and]

theorem entries_put {name : String} (h : t.contains name = false) (index : Int) :
    (t.put name index).entries = t.entries ++ [(name, index)] := by
  simp [put, h]

/-- Legal names, no two of them equal, that stand in the order of their definition. -/
structure Ordered (t : LabelTable) : Prop where
  name : ∀ e ∈ t.entries, Listing.isLabelName e.1.toList = true
  distinct : (t.entries.map Prod.fst).Nodup
  sorted : t.entries.Pairwise fun a b => a.2 ≤ b.2

theorem Ordered.find?_of_mem (ht : t.Ordered) {e : String × Int} (he : e ∈ t.entries) :
    t.find? e.1 = some e.2 := by
  obtain ⟨before, after, hsplit⟩ := List.append_of_mem he
  have hdistinct := ht.distinct
  rw [hsplit, List.map_append, List.map_cons] at hdistinct
  have hnone : before.find? (fun a => a.1 == e.1) = none := by
    rw [List.find?_eq_none]
    intro a ha heq
    have hmem : e.1 ∈ before.map Prod.fst :=
      List.mem_map.mpr ⟨a, ha, by simpa using heq⟩
    exact (List.nodup_append.mp hdistinct).2.2 _ hmem _ (by simp) rfl
  simp [find?, hsplit, List.find?_append, hnone]

theorem Ordered.put (ht : t.Ordered) {name : String} {index : Int}
    (hname : Listing.isLabelName name.toList = true) (hnew : t.contains name = false)
    (hlast : ∀ e ∈ t.entries, e.2 ≤ index) : (t.put name index).Ordered where
  name := by
    rw [entries_put hnew]
    exact List.forall_mem_append.mpr ⟨ht.name, by simpa using hname⟩
  distinct := by
    rw [entries_put hnew, List.map_append, List.map_singleton, ← List.concat_eq_append]
    exact ht.distinct.concat (contains_eq_false_iff.mp hnew)
  sorted := by
    rw [entries_put hnew, List.pairwise_append]
    exact ⟨ht.sorted, List.pairwise_singleton .., by simpa using hlast⟩

def before (t : LabelTable) (index : Int) : List (String × Int) :=
  t.entries.filter fun e => e.2 < index

/-- Labels that stand in order can be cut after those at an index. -/
theorem Ordered.before_succ (ht : t.Ordered) (index : Int) :
    t.before index ++ (t.entries.filter fun e => e.2 = index) = t.before (index + 1) := by
  have hsorted := ht.sorted
  unfold before
  generalize t.entries = entries at hsorted
  induction entries with
  | nil => rfl
  | cons e entries ih =>
      obtain ⟨hhead, htail⟩ := List.pairwise_cons.mp hsorted
      have hrest := ih htail
      by_cases hlt : e.2 < index
      · have hne : e.2 ≠ index := by omega
        have hnext : e.2 < index + 1 := by omega
        simp only [List.filter_cons, hlt, hne, hnext, decide_true, decide_false, if_true,
          Bool.false_eq_true, if_false, List.cons_append, hrest]
      · have hnone : (entries.filter fun a => decide (a.2 < index)) = [] := by
          rw [List.filter_eq_nil_iff]
          intro a ha
          have hle := hhead a ha
          simp only [decide_eq_true_eq]
          omega
        have heq : e.2 = index ↔ e.2 < index + 1 := by omega
        rw [hnone, List.nil_append] at hrest
        simp only [List.filter_cons, hlt, decide_false, Bool.false_eq_true, if_false, hnone,
          List.nil_append, heq, hrest]

theorem namesAt_map (t : LabelTable) (index : Int) :
    (t.namesAt index).map (fun name => (name, index)) = t.entries.filter fun e => e.2 = index := by
  rw [namesAt, List.map_map]
  refine (List.map_congr_left fun e he => ?_).trans (List.map_id _)
  have hindex : e.2 = index := by simpa using (List.mem_filter.mp he).2
  simp [← hindex]

end LabelTable

namespace Listing

/-- What holds of a listing while it is read, of its names and their order too. -/
structure Orderly (l : Listing) : Prop extends Regular l where
  entryName : ∀ name ∈ l.entry, isLabelName name.toList = true
  labels : l.labels.Ordered

theorem Orderly.bound {l : Listing} (hl : l.Orderly) {e : String × Int}
    (he : e ∈ l.labels.entries) : 0 ≤ e.2 ∧ e.2 ≤ l.instructions.size :=
  hl.label e.1 e.2 (hl.labels.find?_of_mem he)

theorem orderly_stable : Stable Orderly where
  label := fun hl hname hnew =>
    { toRegular := regular_stable.label hl.toRegular hname hnew
      entryName := hl.entryName
      labels := hl.labels.put hname hnew fun _ he => (hl.bound he).2 }
  entry := by
    intro l name hl hname
    refine ⟨regular_stable.entry hl.toRegular hname, fun other hother => ?_, hl.labels⟩
    cases hentry : l.entry with
    | none =>
        have hlast : name = other := by simpa [hentry] using hother
        exact hlast ▸ hname
    | some first => exact hl.entryName other (by simpa [hentry] using hother)
  instr := fun hl hp => ⟨regular_stable.instr hl.toRegular hp, hl.entryName, hl.labels⟩

theorem read_orderly {text filename : String} {l : Listing} (h : read text filename = .ok l) :
    l.Orderly :=
  orderly_stable.read ⟨regular_empty filename, by simp, ⟨by simp, by simp, by simp⟩⟩ h

/-! ## Reading the canonical text -/

/-- The listing with labels at its end. -/
def withLabels (l : Listing) (names : List String) : Listing :=
  { l with labels := ⟨l.labels.entries ++ names.map (·, (l.instructions.size : Int))⟩ }

theorem readLines_labels {l : Listing} {names : List String}
    (hname : ∀ name ∈ names, isLabelName name.toList = true)
    (hnew : (l.labels.entries.map Prod.fst ++ names).Nodup) (number : Nat)
    (rest : List (List Char)) :
    readLines l number ((names.map (· ++ ":")).map String.toList ++ rest) =
      readLines (l.withLabels names) (number + names.length) rest := by
  induction names generalizing l number with
  | nil => simp [withLabels]
  | cons name names ih =>
      have hfresh : l.labels.contains name = false := by
        rw [LabelTable.contains_eq_false_iff]
        intro hmem
        exact (List.nodup_append.mp hnew).2.2 name hmem name (by simp) rfl
      have hline : readLine l number (name ++ ":").toList = .ok (l.withLabels [name]) := by
        rw [String.toList_append]
        refine (readLine_label l number (hname name (by simp)) hfresh).trans ?_
        rw [LabelTable.put, hfresh]
        rfl
      have hlater : ((l.withLabels [name]).labels.entries.map Prod.fst ++ names).Nodup := by
        simpa [withLabels] using hnew
      have hall : (l.withLabels [name]).withLabels names = l.withLabels (name :: names) := by
        simp [withLabels]
      rw [List.map_cons, List.map_cons, List.cons_append, readLines, hline]
      dsimp only
      rw [ih (fun other hother => hname other (by simp [hother])) hlater, hall, List.length_cons]
      congr 1
      omega

theorem entries_withLabels {t : LabelTable} (ht : t.Ordered) {l : Listing}
    (hl : l.labels.entries = t.before l.instructions.size) :
    (l.withLabels (t.namesAt l.instructions.size)).labels.entries =
      t.before (l.instructions.size + 1) := by
  rw [withLabels, t.namesAt_map, hl, ht.before_succ]

theorem readLines_namesAt {t : LabelTable} (ht : t.Ordered) {l : Listing}
    (hl : l.labels.entries = t.before l.instructions.size) (number : Nat)
    (rest : List (List Char)) :
    readLines l number
        (((t.namesAt l.instructions.size).map (· ++ ":")).map String.toList ++ rest) =
      readLines (l.withLabels (t.namesAt l.instructions.size))
        (number + (t.namesAt l.instructions.size).length) rest := by
  refine readLines_labels ?_ ?_ number rest
  · rw [LabelTable.namesAt, List.forall_mem_map]
    exact fun e he => ht.name e (List.mem_of_mem_filter he)
  · rw [hl, LabelTable.namesAt, ← List.map_append, ht.before_succ]
    exact ht.distinct.sublist (List.filter_sublist.map _)

theorem readLine_instrText (l : Listing) (number : Nat) {i : Instr} (h : i.Readable) :
    readLine l number i.text.toList =
      .ok { l with instructions := l.instructions.push ⟨i, number, i.text⟩ } := by
  have hline := readLine_instr l number 0 h Nat.one_pos
  rwa [List.replicate_zero, List.nil_append, ← i.toList_text, String.ofList_toList] at hline

/-- The lines from an index on are read as the instructions they were written from and as the
labels from there on. -/
theorem readLines_canonicalFrom {t : LabelTable} (ht : t.Ordered) {instrs : List Instr}
    (hi : ∀ i ∈ instrs, i.Readable) {l : Listing}
    (hl : l.labels.entries = t.before l.instructions.size) (number : Nat) :
    ∃ l', readLines l number
        ((canonicalFrom t l.instructions.size instrs).map String.toList) = .ok l' ∧
      l'.entry = l.entry ∧ l'.filename = l.filename ∧
      l'.labels.entries = t.before ((l.instructions.size + instrs.length : Nat) + 1) ∧
      l'.instructions.toList.map PlacedInstr.instr =
        l.instructions.toList.map PlacedInstr.instr ++ instrs := by
  induction instrs generalizing l number with
  | nil =>
      have hlines := readLines_namesAt ht hl number []
      rw [List.append_nil] at hlines
      exact ⟨_, hlines, rfl, rfl, entries_withLabels ht hl, by simp [withLabels]⟩
  | cons i instrs ih =>
      let l₁ := l.withLabels (t.namesAt l.instructions.size)
      let number₁ := number + (t.namesAt l.instructions.size).length
      let l₂ : Listing := { l₁ with instructions := l₁.instructions.push ⟨i, number₁, i.text⟩ }
      have hsize : l₂.instructions.size = l.instructions.size + 1 := Array.size_push ..
      have hlabels : l₂.labels.entries = t.before l₂.instructions.size := by
        rw [hsize]
        exact entries_withLabels ht hl
      obtain ⟨l', hread, hentry, hfile, hentries, hinstrs⟩ :=
        ih (fun j hj => hi j (by simp [hj])) hlabels (number₁ + 1)
      refine ⟨l', ?_, hentry, hfile, ?_, ?_⟩
      · rw [canonicalFrom, List.map_append, readLines_namesAt ht hl, List.map_cons, readLines,
          readLine_instrText _ _ (hi i (by simp)), ← hsize]
        exact hread
      · rw [hentries, hsize, List.length_cons, Nat.add_right_comm, Nat.add_assoc]
      · rw [hinstrs]
        simp [l₂, l₁, withLabels]

theorem Orderly.readable_instr {l : Listing} (hl : l.Orderly) :
    ∀ i ∈ l.instructions.toList.map PlacedInstr.instr, i.Readable :=
  List.forall_mem_map.mpr fun p hp => hl.readable p (Array.mem_def.mpr hp)

/-- The entry is the first line, if there is one. -/
theorem Orderly.readLines_entry {l : Listing} (hl : l.Orderly) (filename : String) :
    ∃ number, ∀ rest, readLines { filename := filename } 1
        ((l.entry.map (".globl " ++ ·)).toList.map String.toList ++ rest) =
      readLines { filename := filename, entry := l.entry } number rest := by
  cases hentry : l.entry with
  | none => exact ⟨1, fun _ => rfl⟩
  | some name =>
      have hname : (Line.global name).Readable := hl.entryName name hentry
      have hline := readLine_text { filename := filename } 1 hname (by simp)
      refine ⟨2, fun rest => ?_⟩
      rw [Option.map_some, Option.toList_some, List.map_singleton, List.singleton_append, readLines,
        show ".globl " ++ name = (Line.global name).text from rfl, hline]
      rfl

theorem Orderly.before_zero {l : Listing} (hl : l.Orderly) : l.labels.before 0 = [] := by
  rw [LabelTable.before, List.filter_eq_nil_iff]
  intro e he
  have hbound := hl.bound he
  simp only [decide_eq_true_eq]
  omega

theorem Orderly.before_end {l : Listing} (hl : l.Orderly) :
    l.labels.before (l.instructions.size + 1) = l.labels.entries := by
  rw [LabelTable.before, List.filter_eq_self]
  intro e he
  have hbound := hl.bound he
  simp only [decide_eq_true_eq]
  omega

/-- The canonical lines are read as the listing they were written from. -/
theorem Orderly.readLines_canonicalLines {l : Listing} (hl : l.Orderly) (filename : String) :
    ∃ l', readLines { filename := filename } 1 (l.canonicalLines.map String.toList) = .ok l' ∧
      l'.entry = l.entry ∧ l'.filename = filename ∧ l'.labels = l.labels ∧
      l'.instructions.toList.map PlacedInstr.instr =
        l.instructions.toList.map PlacedInstr.instr := by
  obtain ⟨number, hstart⟩ := hl.readLines_entry filename
  obtain ⟨l', hread, hentry, hfile, hlabels, hinstrs⟩ :=
    readLines_canonicalFrom hl.labels hl.readable_instr
      (l := { filename := filename, entry := l.entry }) hl.before_zero.symm number
  refine ⟨l', ?_, hentry, hfile, ?_, by simpa using hinstrs⟩
  · rw [canonicalLines, List.map_append, hstart]
    exact hread
  · have hentries : l'.labels.entries = l.labels.entries := by
      simpa [hl.before_end] using hlabels
    exact congrArg LabelTable.mk hentries

theorem canonicalFrom_oneLine {t : LabelTable} (ht : t.Ordered) {instrs : List Instr}
    (hi : ∀ i ∈ instrs, i.Readable) (index : Nat) :
    ∀ line ∈ canonicalFrom t index instrs, ∀ c ∈ line.toList, isLineEnd c = false := by
  have hnames (index : Nat) : ∀ line ∈ (t.namesAt index).map (· ++ ":"),
      ∀ c ∈ line.toList, isLineEnd c = false := by
    rw [LabelTable.namesAt, List.map_map, List.forall_mem_map]
    intro e he
    have hlabel : (Line.label e.1).Readable := ht.name e (List.mem_of_mem_filter he)
    exact hlabel.text_oneLine
  induction instrs generalizing index with
  | nil => exact hnames index
  | cons i instrs ih =>
      have htext : ∀ c ∈ i.text.toList, isLineEnd c = false := by
        rw [i.toList_text]
        exact fun c hc => (((hi i (by simp)).framed_spaced 1).not_mark hc).2.2
      exact List.forall_mem_append.mpr ⟨hnames index, List.forall_mem_cons.mpr
        ⟨htext, ih (fun j hj => hi j (by simp [hj])) (index + 1)⟩⟩

theorem Orderly.lines_canonicalText {l : Listing} (hl : l.Orderly) :
    lines l.canonicalText.toList = l.canonicalLines.map String.toList := by
  have hentry : ∀ line ∈ (l.entry.map (".globl " ++ ·)).toList,
      ∀ c ∈ line.toList, isLineEnd c = false := by
    intro line hline
    obtain ⟨name, hname, rfl⟩ : ∃ name, l.entry = some name ∧ ".globl " ++ name = line := by
      simpa using hline
    have hglobal : (Line.global name).Readable := hl.entryName name hname
    exact hglobal.text_oneLine
  have hlines : ∀ line ∈ l.canonicalLines, ∀ c ∈ line.toList, isLineEnd c = false :=
    List.forall_mem_append.mpr ⟨hentry, canonicalFrom_oneLine hl.labels hl.readable_instr 0⟩
  have htext : l.canonicalText.toList =
      (l.canonicalLines.map String.toList).flatMap (· ++ ['\n']) := by
    rw [canonicalText, String.toList_join, List.flatMap_map, List.flatMap_map]
    simp only [String.toList_append]
    rfl
  rw [htext, lines_flatMap (List.forall_mem_map.mpr hlines)]

theorem read_filename {text filename : String} {l : Listing} (h : read text filename = .ok l) :
    l.filename = filename := by
  have hstable : Stable fun l => l.filename = filename :=
    ⟨fun hl _ _ => hl, fun hl _ => hl, fun hl _ => hl⟩
  exact hstable.read rfl h

/-- The canonical text of a listing that was read is read as the same entry, the same labels in
the same order, and the same instructions. -/
theorem read_canonicalText {text filename : String} {l : Listing}
    (h : read text filename = .ok l) :
    ∃ l', read l.canonicalText filename = .ok l' ∧
      l'.entry = l.entry ∧ l'.filename = l.filename ∧ l'.labels = l.labels ∧
      l'.instructions.toList.map PlacedInstr.instr =
        l.instructions.toList.map PlacedInstr.instr := by
  have hl := read_orderly h
  obtain ⟨l', hread, hentry, hfile, hlabels, hinstrs⟩ := hl.readLines_canonicalLines filename
  have hjumps : l'.danglingJump? = none := by
    rw [danglingJump?_eq_none_iff, hinstrs, hlabels]
    exact danglingJump?_eq_none_iff.mp (read_eq_ok_iff.mp h).2
  refine ⟨l', read_eq_ok_iff.mpr ⟨?_, hjumps⟩, hentry, hfile.trans (read_filename h).symm,
    hlabels, hinstrs⟩
  rw [hl.lines_canonicalText]
  exact hread

/-- A listing with labels in all places and with signs, zeros and blanks that need not be there. -/
def untidy : String :=
  ".GLOBL\t$start # the entry\r\n.global other\nrax: .text\n\n$start:MOV RAX , [ RBP + 008 ]\n" ++
    "  jmp push\r PUSH -007 # -7\n.globl:\n push : Ret\nend:"

def untidyListing : Listing where
  entry := some "$start"
  labels := ⟨[("rax", 0), ("$start", 0), (".globl", 3), ("push", 3), ("end", 4)]⟩
  instructions := #[
    ⟨⟨.mov, [.reg .rax, .mem .rbp 8]⟩, 5, "$start:MOV RAX , [ RBP + 008 ]"⟩,
    ⟨⟨.jmp, [.label "push"]⟩, 6, "  jmp push"⟩,
    ⟨⟨.push, [.imm (-7)]⟩, 7, " PUSH -007 # -7"⟩,
    ⟨⟨.ret, []⟩, 9, " push : Ret"⟩]

theorem read_canonicalText_untidy :
    read untidy = .ok untidyListing ∧
    untidyListing.canonicalText = ".globl $start\nrax:\n$start:\nmov rax, [rbp+8]\njmp push\n" ++
      "push -7\n.globl:\npush:\nret\nend:\n" ∧
    ∃ l', read untidyListing.canonicalText = .ok l' ∧
      l'.entry = untidyListing.entry ∧ l'.filename = untidyListing.filename ∧
      l'.labels = untidyListing.labels ∧
      l'.instructions.toList.map PlacedInstr.instr =
        untidyListing.instructions.toList.map PlacedInstr.instr := by
  have hread : read untidy = .ok untidyListing := by decide +kernel
  exact ⟨hread, by decide +kernel, read_canonicalText hread⟩

end Listing

end StackLang
