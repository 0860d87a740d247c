import StackLang.Assembly.Routine
import StackLang.Proofs.ListingOperand

/-!
# Lines of listings

Every line of a routine, written as text, is read back as what it says: an instruction, a label, a
directive or a comment.
-/

namespace StackLang

open Text

/-- An instruction that can be written and read. -/
structure Instr.Readable (i : Instr) : Prop where
  known : i.mnemonic ∈ Mnemonic.known
  count : i.operands.length = i.mnemonic.operandCount
  operand : ∀ op ∈ i.operands, op.Readable i.mnemonic
  sound : Listing.operandFault? i.mnemonic i.operands = none

/-- A line that can be written and read. -/
def Line.Readable : Line → Prop
  | .intelDirective => True
  | .global name | .label name => Listing.isLabelName name.toList = true
  | .comment text => ∀ c ∈ text.toList, isLineEnd c = false
  | .instr i => i.Readable

/-! ## Words in a line -/

/-- Words with commas and spaces between them. -/
structure Text.Framed (cs : List Char) : Prop where
  ne_nil : cs ≠ []
  head : ∀ c ∈ cs.head?, isBlank c = false
  last : ∀ c ∈ cs.getLast?, isBlank c = false
  inner : ∀ c ∈ cs, isPlain c = true ∨ c = ',' ∨ c = ' '

namespace Text

theorem framed_of_isPlain {cs : List Char} (hne : cs ≠ []) (h : ∀ c ∈ cs, isPlain c = true) :
    Framed cs where
  ne_nil := hne
  head := fun c hc => not_isBlank_of_isPlain (h c (List.mem_of_mem_head? hc))
  last := fun c hc => not_isBlank_of_isPlain (h c (List.mem_of_mem_getLast? hc))
  inner := fun c hc => Or.inl (h c hc)

theorem Framed.join {a b gap : List Char} (ha : Framed a) (hb : Framed b)
    (hgap : ∀ c ∈ gap, c = ',' ∨ c = ' ') : Framed (a ++ (gap ++ b)) where
  ne_nil := List.append_ne_nil_of_left_ne_nil ha.ne_nil _
  head := by
    intro c hc
    rw [List.head?_append_of_ne_nil a ha.ne_nil] at hc
    exact ha.head c hc
  last := by
    intro c hc
    rw [← List.append_assoc, List.getLast?_append_of_ne_nil _ hb.ne_nil] at hc
    exact hb.last c hc
  inner := by
    intro c hc
    rcases List.mem_append.mp hc with hc | hc
    · exact ha.inner c hc
    rcases List.mem_append.mp hc with hc | hc
    · exact Or.inr (hgap c hc)
    · exact hb.inner c hc

theorem Framed.trim_eq {cs : List Char} (h : Framed cs) : trim cs = cs :=
  trim_eq_self h.head h.last

/-- No character of such words ends the line, starts a comment or closes a label. -/
theorem Framed.not_mark {cs : List Char} (h : Framed cs) {c : Char} (hc : c ∈ cs) :
    c ≠ '#' ∧ c ≠ ':' ∧ isLineEnd c = false := by
  rcases h.inner c hc with hplain | rfl | rfl
  · obtain ⟨hblank, -, hhash, hcolon⟩ := isPlain_iff.mp hplain
    refine ⟨hhash, hcolon, ?_⟩
    by_contra hend
    rw [isBlank_of_isLineEnd (by simpa using hend)] at hblank
    exact absurd hblank (by decide)
  · decide
  · decide

end Text

/-! ## Operand lists -/

theorem map_trim_splitOn (t : List Char) (ts : List (List Char)) (n : Nat)
    (h : ∀ t' ∈ t :: ts, ∀ c ∈ t', isPlain c = true) :
    ((List.replicate n ' ' ++ [',', ' '].intercalate (t :: ts)).splitOn ',').map trim =
      t :: ts := by
  have hcomma (n : Nat) {t : List Char} (ht : ∀ c ∈ t, isPlain c = true) :
      ',' ∉ List.replicate n ' ' ++ t := by
    intro hmem
    rcases List.mem_append.mp hmem with hspace | hplain
    · exact absurd (List.eq_of_mem_replicate hspace) (by decide)
    · exact absurd (ht _ hplain) (by decide)
  induction ts generalizing t n with
  | nil =>
      have ht := h t (by simp)
      rw [List.intercalate_singleton, List.splitOn_eq_singleton (hcomma n ht), List.map_singleton,
        trim_indented, trim_of_isPlain ht]
  | cons u us ih =>
      have ht := h t (by simp)
      rw [List.intercalate_cons_cons, List.append_assoc, List.cons_append, ← List.append_assoc,
        List.splitOn_append_cons_self_of_not_mem (hcomma n ht), List.map_cons, trim_indented,
        trim_of_isPlain ht]
      exact congrArg _ (ih u 1 fun t' ht' => h t' (by simp [ht']))

theorem Instr.toList_operandText (i : Instr) :
    i.operandText.toList = [',', ' '].intercalate (i.operands.map fun op => op.text.toList) := by
  rw [Instr.operandText, String.toList_intercalate, List.map_map]
  rfl

theorem framed_intercalate (t : List Char) (ts : List (List Char))
    (h : ∀ t' ∈ t :: ts, t' ≠ [] ∧ ∀ c ∈ t', isPlain c = true) :
    Framed ([',', ' '].intercalate (t :: ts)) := by
  have ht := h t (by simp)
  induction ts generalizing t with
  | nil =>
      rw [List.intercalate_singleton]
      exact framed_of_isPlain ht.1 ht.2
  | cons u us ih =>
      have hu := ih u (fun t' ht' => h t' (by simp [ht'])) (h u (by simp))
      rw [List.intercalate_cons_cons, List.append_assoc]
      exact (framed_of_isPlain ht.1 ht.2).join hu (by simp)

theorem Instr.Readable.text_plain {i : Instr} (h : i.Readable) {t : List Char}
    (ht : t ∈ i.operands.map fun op => op.text.toList) :
    t ≠ [] ∧ ∀ c ∈ t, isPlain c = true := by
  obtain ⟨op, hop, rfl⟩ := List.mem_map.mp ht
  exact Operand.text_plain (h.operand op hop)

theorem Instr.Readable.framed_operandText {i : Instr} (h : i.Readable) (hne : i.operands ≠ []) :
    Framed i.operandText.toList := by
  obtain ⟨op, ops, hops⟩ := List.exists_cons_of_ne_nil hne
  rw [i.toList_operandText, hops, List.map_cons]
  exact framed_intercalate _ _ fun t ht => h.text_plain (by rwa [hops, List.map_cons])

theorem Instr.Readable.operandTexts_eq {i : Instr} (h : i.Readable) (hne : i.operands ≠ []) :
    Listing.operandTexts i.operandText.toList = i.operands.map fun op => op.text.toList := by
  obtain ⟨op, ops, hops⟩ := List.exists_cons_of_ne_nil hne
  have hsplit := map_trim_splitOn op.text.toList (ops.map fun op => op.text.toList) 0
    fun t ht => (h.text_plain (by rwa [hops, List.map_cons])).2
  rw [Listing.operandTexts, List.isEmpty_eq_false_iff.mpr (h.framed_operandText hne).ne_nil,
    i.toList_operandText, hops]
  simpa using hsplit

/-! ## Instructions -/

namespace Mnemonic

theorem ofName?_name {m : Mnemonic} (h : m ∈ known) : ofName? m.name = some m := by
  revert m
  decide

theorem name_chars {m : Mnemonic} (h : m ∈ known) :
    ∀ c ∈ m.name.toList, isLowered c = true ∧ isPlain c = true ∧ c ≠ '.' := by
  have hall : known.all (fun m => m.name.toList.all fun c =>
      decide (isLowered c = true ∧ isPlain c = true ∧ c ≠ '.')) = true := by
    decide
  intro c hc
  exact of_decide_eq_true (List.all_eq_true.mp (List.all_eq_true.mp hall m h) c hc)

theorem name_length {m : Mnemonic} (h : m ∈ known) :
    m.name.toList ≠ [] ∧ m.name.length < 8 := by
  revert m
  decide

end Mnemonic

theorem Instr.Readable.mapM_readOperand {i : Instr} (h : i.Readable) :
    (i.operands.map fun op => op.text.toList).mapM (Listing.readOperand i.mnemonic) =
      .ok i.operands := by
  have hall : ∀ ops : List Operand, (∀ op ∈ ops, op.Readable i.mnemonic) →
      (ops.map fun op => op.text.toList).mapM (Listing.readOperand i.mnemonic) = .ok ops := by
    intro ops hops
    induction ops with
    | nil => rfl
    | cons op ops ih =>
        rw [List.map_cons, List.mapM_cons, Operand.readOperand_text (hops op (by simp)),
          ih fun op' hop' => hops op' (by simp [hop'])]
        rfl
  exact hall i.operands h.operand

/-- The text of an instruction with some spaces in front of its operands. -/
def Instr.spaced (gap : Nat) (i : Instr) : List Char :=
  if i.operands.isEmpty then i.mnemonic.name.toList
  else i.mnemonic.name.toList ++ (List.replicate gap ' ' ++ i.operandText.toList)

theorem Instr.spaced_of_operands {i : Instr} (hne : i.operands ≠ []) (gap : Nat) :
    i.spaced gap =
      i.mnemonic.name.toList ++ (List.replicate gap ' ' ++ i.operandText.toList) := by
  rw [Instr.spaced, List.isEmpty_eq_false_iff.mpr hne]
  rfl

theorem Line.toList_instrText (i : Instr) :
    (Line.instrText i).toList = i.spaced (8 - i.mnemonic.name.length) := by
  unfold Line.instrText Instr.spaced
  split <;> simp

theorem Instr.toList_text (i : Instr) : i.text.toList = i.spaced 1 := by
  unfold Instr.text Instr.spaced
  split <;> simp

namespace Instr.Readable

variable {i : Instr} {gap : Nat}

theorem cutWord_spaced (h : i.Readable) (hgap : 0 < gap) :
    ∃ rest, cutWord (i.spaced gap) = (i.mnemonic.name.toList, rest) ∧
      Listing.operandTexts rest = i.operands.map fun op => op.text.toList := by
  have hname : ∀ c ∈ i.mnemonic.name.toList, isBlank c = false :=
    fun c hc => not_isBlank_of_isPlain (Mnemonic.name_chars h.known c hc).2.1
  by_cases hne : i.operands = []
  · refine ⟨[], ?_, by rw [hne]; rfl⟩
    rw [Instr.spaced, hne]
    exact cutWord_word hname
  · refine ⟨i.operandText.toList, ?_, h.operandTexts_eq hne⟩
    rw [Instr.spaced_of_operands hne]
    refine cutWord_append hname (fun c hc => ?_) (fun hnil => ?_)
      (h.framed_operandText hne).head
    · rw [List.eq_of_mem_replicate hc]
      decide
    · rw [List.replicate_eq_nil_iff] at hnil
      omega

/-- An instruction is read back from its text. -/
theorem readInstr_spaced (h : i.Readable) (hgap : 0 < gap) (raw : List Char) :
    Listing.readInstr raw (i.spaced gap) = .ok i := by
  obtain ⟨rest, hcut, htexts⟩ := h.cutWord_spaced hgap
  have hlow := lower_eq_self fun c hc => (Mnemonic.name_chars h.known c hc).1
  have hcount : (i.operands.map fun op => op.text.toList).length = i.mnemonic.operandCount := by
    rw [List.length_map, h.count]
  simp only [Listing.readInstr, hcut, hlow, String.ofList_toList, Mnemonic.ofName?_name h.known,
    htexts, hcount, ne_eq, not_true_eq_false, if_false, h.mapM_readOperand,
    bind, Except.bind, h.sound]
  rfl

theorem framed_spaced (h : i.Readable) (gap : Nat) : Framed (i.spaced gap) := by
  have hname := framed_of_isPlain (Mnemonic.name_length h.known).1
    fun c hc => (Mnemonic.name_chars h.known c hc).2.1
  by_cases hne : i.operands = []
  · rw [Instr.spaced, hne]
    exact hname
  · rw [Instr.spaced_of_operands hne]
    exact hname.join (h.framed_operandText hne)
      fun c hc => Or.inr (List.eq_of_mem_replicate hc)

theorem spaced_cons (h : i.Readable) (gap : Nat) : ∃ c cs, i.spaced gap = c :: cs ∧ c ≠ '.' := by
  obtain ⟨c, cs, hcs⟩ := List.exists_cons_of_ne_nil (Mnemonic.name_length h.known).1
  have hc := (Mnemonic.name_chars h.known c (by rw [hcs]; simp)).2.2
  by_cases hne : i.operands = []
  · refine ⟨c, cs, ?_, hc⟩
    rw [Instr.spaced, hne]
    exact hcs
  · rw [Instr.spaced_of_operands hne, hcs]
    exact ⟨c, _, rfl, hc⟩

end Instr.Readable

/-! ## Lines -/

namespace Line

theorem toList_text_comment (text : String) :
    (Line.comment text).text.toList = List.replicate 8 ' ' ++ '#' :: ' ' :: text.toList := by
  rw [Line.text, String.toList_append, String.toList_append, List.append_assoc]
  rfl

theorem toList_text_instr (i : Instr) :
    (Line.instr i).text.toList =
      List.replicate 8 ' ' ++ i.spaced (8 - i.mnemonic.name.length) := by
  rw [Line.text, String.toList_append, toList_instrText]
  rfl

theorem isPlain_intelSyntax :
    ".intel_syntax".toList ≠ [] ∧ ∀ c ∈ ".intel_syntax".toList, isPlain c = true :=
  ⟨by decide, List.all_eq_true.mp (by decide)⟩

theorem isPlain_noprefix :
    "noprefix".toList ≠ [] ∧ ∀ c ∈ "noprefix".toList, isPlain c = true :=
  ⟨by decide, List.all_eq_true.mp (by decide)⟩

theorem isPlain_globl : ".globl".toList ≠ [] ∧ ∀ c ∈ ".globl".toList, isPlain c = true :=
  ⟨by decide, List.all_eq_true.mp (by decide)⟩

theorem framed_intelDirective : Framed Line.intelDirective.text.toList := by
  have hname := framed_of_isPlain isPlain_intelSyntax.1 isPlain_intelSyntax.2
  have hdialect := framed_of_isPlain isPlain_noprefix.1 isPlain_noprefix.2
  exact hname.join hdialect (by simp : ∀ c ∈ [' '], c = ',' ∨ c = ' ')

theorem toList_text_global (name : String) :
    (Line.global name).text.toList = ".globl".toList ++ ([' '] ++ name.toList) := by
  rw [Line.text, String.toList_append]
  rfl

theorem framed_global {name : String} (h : Listing.isLabelName name.toList = true) :
    Framed (Line.global name).text.toList := by
  obtain ⟨hne, hplain⟩ := isPlain_of_isLabelName h
  have hdirective := framed_of_isPlain isPlain_globl.1 isPlain_globl.2
  rw [toList_text_global]
  exact hdirective.join (framed_of_isPlain hne hplain) (by simp)

end Line

namespace Listing

/-- The listing with one more line of a routine. -/
def afterLine (l : Listing) (number : Nat) (line : Line) : Listing :=
  match line with
  | .intelDirective | .comment _ => l
  | .global name => { l with entry := l.entry <|> some name }
  | .label name => { l with labels := l.labels.put name l.instructions.size }
  | .instr i => { l with instructions := l.instructions.push ⟨i, number, line.text⟩ }

/-- A line of words, indented or not, without a label. -/
theorem readLabel_framed (l : Listing) (n : Nat) {cs : List Char} (h : Framed cs) :
    readLabel l (trim ((List.replicate n ' ' ++ cs).takeWhile (· != '#'))) = .ok (l, cs) := by
  have hcomment : (List.replicate n ' ' ++ cs).takeWhile (· != '#') =
      List.replicate n ' ' ++ cs := by
    rw [List.takeWhile_eq_self_iff]
    intro c hc
    rcases List.mem_append.mp hc with hspace | hc
    · rw [List.eq_of_mem_replicate hspace]
      decide
    · simp [(h.not_mark hc).1]
  have hcolon : cs.contains ':' = false := by
    rw [Bool.eq_false_iff]
    intro hc
    exact (h.not_mark (List.contains_iff_mem.mp hc)).2.1 rfl
  rw [hcomment, trim_indented, h.trim_eq, readLabel, hcolon]
  rfl

theorem words_pair {a b : List Char} (ha : a ≠ [] ∧ ∀ c ∈ a, isPlain c = true)
    (hb : b ≠ [] ∧ ∀ c ∈ b, isPlain c = true) : words (a ++ ' ' :: b) = [a, b] := by
  rw [words, List.splitOnP_append_cons_of_forall_mem
    (fun c hc => not_isBlank_of_isPlain (ha.2 c hc)) ' ' (by decide),
    List.splitOnP_eq_singleton fun c hc => not_isBlank_of_isPlain (hb.2 c hc)]
  simp [ha.1, hb.1]

theorem readLine_directive (l : Listing) (number : Nat) {cs : List Char} (h : Framed cs)
    (hdot : cs.head? = some '.') : readLine l number cs = readDirective l cs := by
  have hlabel := readLabel_framed l 0 h
  simp only [List.replicate_zero, List.nil_append] at hlabel
  obtain ⟨rest, rfl⟩ : ∃ rest, cs = '.' :: rest := by
    cases cs with
    | nil => exact absurd hdot (by simp)
    | cons c rest => exact ⟨rest, by simpa using hdot⟩
  simp only [readLine, hlabel, bind, Except.bind]

theorem readDirective_intel (l : Listing) :
    readDirective l (".intel_syntax".toList ++ ' ' :: "noprefix".toList) = .ok l := by
  have hwords := words_pair Line.isPlain_intelSyntax Line.isPlain_noprefix
  have hlow : lower ".intel_syntax".toList = ".intel_syntax".toList :=
    lower_eq_self (List.all_eq_true.mp (by decide))
  simp only [readDirective, hwords, hlow, String.ofList_toList, if_true]

theorem readDirective_global (l : Listing) {name : String}
    (h : isLabelName name.toList = true) :
    readDirective l (".globl".toList ++ ' ' :: name.toList) =
      .ok { l with entry := l.entry <|> some name } := by
  have hwords := words_pair Line.isPlain_globl (isPlain_of_isLabelName h)
  have hlow : lower ".globl".toList = ".globl".toList :=
    lower_eq_self (List.all_eq_true.mp (by decide))
  simp only [readDirective, hwords, hlow, String.ofList_toList, h, if_true]
  simp

theorem readLine_label (l : Listing) (number : Nat) {name : String}
    (h : isLabelName name.toList = true) (hnew : l.labels.contains name = false) :
    readLine l number (name.toList ++ [':']) =
      .ok { l with labels := l.labels.put name l.instructions.size } := by
  have hplain := (isPlain_of_isLabelName h).2
  have hmarks : ∀ c ∈ name.toList, (c != '#') = true ∧ (c != ':') = true := by
    intro c hc
    obtain ⟨-, -, hhash, hcolon⟩ := isPlain_iff.mp (hplain c hc)
    simp [hhash, hcolon]
  have hcomment : (name.toList ++ [':']).takeWhile (· != '#') = name.toList ++ [':'] := by
    rw [List.takeWhile_append_of_pos fun c hc => (hmarks c hc).1]
    rfl
  have hframed : trim (name.toList ++ [':']) = name.toList ++ [':'] := by
    refine trim_eq_self (fun c hc => ?_) fun c hc => ?_
    · rw [List.head?_append_of_ne_nil _ (isPlain_of_isLabelName h).1] at hc
      exact not_isBlank_of_isPlain (hplain c (List.mem_of_mem_head? hc))
    · have hlast : c = ':' := by simpa using hc.symm
      rw [hlast]
      decide
  have hname : (name.toList ++ [':']).takeWhile (· != ':') = name.toList := by
    rw [List.takeWhile_append_of_pos fun c hc => (hmarks c hc).2]
    simp
  have hrest : (name.toList ++ [':']).dropWhile (· != ':') = [':'] := by
    rw [List.dropWhile_append_of_pos fun c hc => (hmarks c hc).2]
    rfl
  have hcolon : (name.toList ++ [':']).contains ':' = true := by simp
  simp only [readLine, readLabel, hcomment, hframed, hcolon, if_true, hname, hrest,
    trim_of_isPlain hplain, h, String.ofList_toList, hnew, bind, Except.bind]
  rfl

theorem readLine_comment (l : Listing) (number : Nat) (n : Nat) (text : List Char) :
    readLine l number (List.replicate n ' ' ++ '#' :: text) = .ok l := by
  have hcomment : (List.replicate n ' ' ++ '#' :: text).takeWhile (· != '#') =
      List.replicate n ' ' ++ [] := by
    rw [List.takeWhile_append_of_pos]
    · simp
    · intro c hc
      rw [List.eq_of_mem_replicate hc]
      decide
  rw [readLine, hcomment, trim_indented]
  rfl

theorem readLine_instr (l : Listing) (number n : Nat) {i : Instr} (h : i.Readable) {gap : Nat}
    (hgap : 0 < gap) :
    readLine l number (List.replicate n ' ' ++ i.spaced gap) =
      .ok { l with instructions := l.instructions.push ⟨i, number,
        String.ofList (List.replicate n ' ' ++ i.spaced gap)⟩ } := by
  obtain ⟨c, cs, hcs, hdot⟩ := h.spaced_cons gap
  rw [readLine, readLabel_framed l n (h.framed_spaced gap)]
  simp only [bind, Except.bind]
  split
  · next heq => exact absurd (heq.symm.trans hcs) (by simp)
  · next heq => exact absurd (List.cons.inj (heq.symm.trans hcs)).1.symm hdot
  · rw [h.readInstr_spaced hgap]
    rfl

/-- A line of a routine is read back as what it says, if its label is a new one. -/
theorem readLine_text (l : Listing) (number : Nat) {line : Line} (h : line.Readable)
    (hnew : ∀ name, line = .label name → l.labels.contains name = false) :
    readLine l number line.text.toList = .ok (l.afterLine number line) := by
  cases line with
  | intelDirective =>
      rw [readLine_directive l number Line.framed_intelDirective rfl]
      exact readDirective_intel l
  | global name =>
      rw [readLine_directive l number (Line.framed_global h) (by rw [Line.toList_text_global]; rfl),
        Line.toList_text_global]
      exact readDirective_global l h
  | label name =>
      rw [Line.text, String.toList_append]
      exact readLine_label l number h (hnew name rfl)
  | comment text =>
      rw [Line.toList_text_comment]
      exact readLine_comment l number 8 _
  | instr i =>
      have hgap : 0 < 8 - i.mnemonic.name.length := by
        have hlength := (Mnemonic.name_length h.known).2
        omega
      rw [Line.toList_text_instr, readLine_instr l number 8 h hgap, ← Line.toList_text_instr,
        String.ofList_toList]
      rfl

end Listing

/-- The text of a line has no line ending in it. -/
theorem Line.Readable.text_oneLine {line : Line} (h : line.Readable) :
    ∀ c ∈ line.text.toList, isLineEnd c = false := by
  have hspaces : ∀ c ∈ List.replicate 8 ' ', isLineEnd c = false := by
    intro c hc
    rw [List.eq_of_mem_replicate hc]
    decide
  intro c hc
  cases line with
  | intelDirective => exact (Line.framed_intelDirective.not_mark hc).2.2
  | global name => exact ((Line.framed_global h).not_mark hc).2.2
  | label name =>
      rw [Line.text, String.toList_append] at hc
      rcases List.mem_append.mp hc with hname | hcolon
      · obtain ⟨hne, hplain⟩ := isPlain_of_isLabelName h
        exact ((framed_of_isPlain hne hplain).not_mark hname).2.2
      · have hc : c = ':' := by simpa using hcolon
        rw [hc]
        decide
  | comment text =>
      rw [Line.toList_text_comment] at hc
      rcases List.mem_append.mp hc with hspace | hrest
      · exact hspaces c hspace
      rcases List.mem_cons.mp hrest with rfl | hrest
      · decide
      rcases List.mem_cons.mp hrest with rfl | htext
      · decide
      · exact h c htext
  | instr i =>
      rw [Line.toList_text_instr] at hc
      rcases List.mem_append.mp hc with hspace | htext
      · exact hspaces c hspace
      · exact ((h.framed_spaced _).not_mark htext).2.2

end StackLang
