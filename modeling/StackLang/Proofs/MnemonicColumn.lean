import StackLang.Proofs.ListingShape
import StackLang.Proofs.Quotation

/-!
# Where an unsupported instruction is reported

The column of an instruction that is not supported is found by searching its line for the mnemonic
from the start. On a line without a label this is where the instruction starts. On a line with one
it may be further left, for the mnemonic may also stand in the label or begin there.
-/

namespace StackLang

open Text

namespace Text

/-! ## Blanks around a text -/

def AllBlank (cs : List Char) : Prop :=
  ∀ c ∈ cs, isBlank c = true

theorem AllBlank.append {cs ds : List Char} (hc : AllBlank cs) (hd : AllBlank ds) :
    AllBlank (cs ++ ds) :=
  fun c h => (List.mem_append.mp h).elim (hc c) (hd c)

theorem AllBlank.not_mem {cs : List Char} (h : AllBlank cs) {c : Char} (hc : isBlank c = false) :
    c ∉ cs := by
  intro hmem
  rw [h c hmem] at hc
  cases hc

theorem exists_trim (cs : List Char) :
    ∃ left right, cs = left ++ (trim cs ++ right) ∧ AllBlank left ∧ AllBlank right := by
  refine ⟨cs.takeWhile isBlank, (cs.dropWhile isBlank).rtakeWhile isBlank, ?_,
    fun c hc => List.mem_takeWhile_imp hc, fun c hc => List.mem_rtakeWhile_imp hc⟩
  have hback : trim cs ++ (cs.dropWhile isBlank).rtakeWhile isBlank = cs.dropWhile isBlank :=
    List.rdropWhile_append_rtakeWhile
  rw [hback, List.takeWhile_append_dropWhile]

theorem head?_dropWhile {p : Char → Bool} (cs : List Char) :
    ∀ c ∈ (cs.dropWhile p).head?, p c = false := by
  intro c hc
  have hnot := List.head?_dropWhile_not p cs
  rw [hc] at hnot
  simpa using hnot

theorem head?_trim (cs : List Char) : ∀ c ∈ (trim cs).head?, isBlank c = false := by
  intro c hc
  obtain ⟨back, hback⟩ : trim cs <+: cs.dropWhile isBlank := List.rdropWhile_prefix isBlank _
  apply head?_dropWhile cs
  rw [← hback, List.head?_append, hc]
  rfl

/-- A text is cut at a character that is in it. -/
theorem exists_cut {d : Char} {cs : List Char} (h : d ∈ cs) :
    ∃ rest, cs.dropWhile (· != d) = d :: rest ∧ cs = cs.takeWhile (· != d) ++ d :: rest := by
  have hne : cs.dropWhile (· != d) ≠ [] := by
    rw [ne_eq, List.dropWhile_eq_nil_iff]
    intro hall
    exact absurd (hall d h) (by simp)
  obtain ⟨c, rest, hrest⟩ := List.exists_cons_of_ne_nil hne
  obtain rfl : c = d := by
    have hc := head?_dropWhile (p := (· != d)) cs c (by rw [hrest]; rfl)
    simpa using hc
  exact ⟨rest, hrest, by rw [← hrest, List.takeWhile_append_dropWhile]⟩

theorem cutWord_spec (cs : List Char) :
    ∃ rest, cs = (cutWord cs).1 ++ rest ∧ (∀ c ∈ (cutWord cs).1, isBlank c = false) ∧
      ∀ c ∈ rest.head?, isBlank c = true := by
  refine ⟨cs.dropWhile fun c => !isBlank c, List.takeWhile_append_dropWhile.symm, fun c hc => ?_,
    fun c hc => ?_⟩
  · simpa using List.mem_takeWhile_imp (p := fun c => !isBlank c) hc
  · simpa using head?_dropWhile (p := fun c => !isBlank c) cs c hc

/-! ## Searching -/

/-- The index that a search yields is the least at which the needle stands. -/
theorem indexOf?_isLeast {needle cs : List Char} {j : Nat} (h : needle <+: cs.drop j) :
    ∃ k, indexOf? needle cs = some k ∧ IsLeast {i | needle <+: cs.drop i} k := by
  induction cs generalizing j with
  | nil =>
      obtain rfl : needle = [] := by simpa using h
      exact ⟨0, rfl, List.nil_prefix, fun i _ => Nat.zero_le i⟩
  | cons c cs ih =>
      by_cases hfirst : needle <+: c :: cs
      · exact ⟨0, by rw [indexOf?, if_pos (List.isPrefixOf_iff_prefix.mpr hfirst)], hfirst,
          fun i _ => Nat.zero_le i⟩
      · have hlater : ∀ i, needle <+: (c :: cs).drop i →
            ∃ i', i = i' + 1 ∧ needle <+: cs.drop i' := by
          intro i hi
          cases i with
          | zero => exact absurd hi hfirst
          | succ i' => exact ⟨i', rfl, hi⟩
        obtain ⟨j', -, hj'⟩ := hlater j h
        obtain ⟨k, hk, hstands, hleast⟩ := ih hj'
        refine ⟨k + 1, ?_, hstands, fun i hi => ?_⟩
        · rw [indexOf?, if_neg (fun hp => hfirst (List.isPrefixOf_iff_prefix.mp hp)), hk]
          rfl
        · obtain ⟨i', rfl, hi'⟩ := hlater i hi
          exact Nat.succ_le_succ (hleast hi')

end Text

namespace Listing

/-! ## The instruction of a line -/

/-- What stands on a line before `rest`, which starts with its instruction: blanks, or else a label
and its colon with blanks around them. A colon that is not in the comment is that of a label. -/
inductive Lead : List Char → List Char → Prop where
  | blank {blanks rest : List Char} : AllBlank blanks → ':' ∉ rest.takeWhile (· != '#') →
      Lead blanks rest
  | label {left name mid right rest : List Char} : AllBlank left → isLabelName name = true →
      AllBlank mid → AllBlank right → Lead (left ++ (name ++ (mid ++ ':' :: right))) rest

/-- The instruction of the line starts with `word`, which goes to the next blank or comment. -/
structure InstructionAt (raw lead word after : List Char) : Prop where
  raw_eq : raw = lead ++ (word ++ after)
  lead : Lead lead (word ++ after)
  ne_nil : word ≠ []
  solid : ∀ c ∈ word, isBlank c = false ∧ c ≠ '#'
  ends : ∀ c ∈ after.head?, isBlank c = true ∨ c = '#'
  plain : word.head? ≠ some '.'

/-- What is left of a line without its label, its comment and the blanks around it. -/
structure Stripped (raw lead line tail : List Char) : Prop where
  raw_eq : raw = lead ++ (line ++ tail)
  lead : Lead lead (line ++ tail)
  solid : ∀ c ∈ line, c ≠ '#'
  head : ∀ c ∈ line.head?, isBlank c = false
  ends : ∀ c ∈ tail.head?, isBlank c = true ∨ c = '#'

theorem Stripped.instructionAt {raw lead line tail : List Char} (h : Stripped raw lead line tail)
    (hne : line ≠ []) (hdot : line.head? ≠ some '.') :
    ∃ after, InstructionAt raw lead (cutWord line).1 after := by
  obtain ⟨rest, hline, hword, hrest⟩ := cutWord_spec line
  have hstart : (cutWord line).1 ≠ [] := by
    intro hnil
    rw [hnil, List.nil_append] at hline
    obtain ⟨c, hc⟩ := Option.ne_none_iff_exists'.mp (mt List.head?_eq_none_iff.mp hne)
    have hblank := hrest c (hline ▸ hc)
    rw [h.head c hc] at hblank
    cases hblank
  have hsplit : (cutWord line).1 ++ (rest ++ tail) = line ++ tail := by
    rw [← List.append_assoc, ← hline]
  refine ⟨rest ++ tail, hsplit ▸ h.raw_eq, hsplit ▸ h.lead, hstart,
    fun c hc => ⟨hword c hc, h.solid c ?_⟩, fun c hc => ?_, fun hfirst => hdot ?_⟩
  · rw [hline]
    exact List.mem_append_left _ hc
  · cases rest with
    | nil => exact h.ends c hc
    | cons d rest => exact Or.inl (hrest c hc)
  · rw [hline, List.head?_append, hfirst]
    rfl

theorem readLabel_ok {l l' : Listing} {body line : List Char}
    (h : readLabel l body = .ok (l', line)) :
    ':' ∉ body ∧ line = body ∨
      ∃ left name mid right back,
        body = left ++ (name ++ (mid ++ ':' :: (right ++ (line ++ back)))) ∧ AllBlank left ∧
        isLabelName name = true ∧ AllBlank mid ∧ AllBlank right ∧ AllBlank back ∧
        ∀ c ∈ line.head?, isBlank c = false := by
  unfold readLabel at h
  split at h
  · next hcolon =>
    dsimp only at h
    split at h
    · cases h
    · next hname =>
      split at h
      · cases h
      · cases h
        obtain ⟨tail, htail, hsplit⟩ := exists_cut (List.contains_iff_mem.mp hcolon)
        obtain ⟨left, mid, hfront, hleft, hmid⟩ := exists_trim (body.takeWhile (· != ':'))
        obtain ⟨right, back, hback, hright, hblank⟩ := exists_trim tail
        rw [htail, List.drop_one, List.tail_cons]
        refine Or.inr ⟨left, trim (body.takeWhile (· != ':')), mid, right, back, ?_, hleft,
          by simpa using hname, hmid, hright, hblank, head?_trim tail⟩
        calc body
          _ = body.takeWhile (· != ':') ++ ':' :: tail := hsplit
          _ = (left ++ (trim (body.takeWhile (· != ':')) ++ mid)) ++
              ':' :: (right ++ (trim tail ++ back)) := by rw [← hfront, ← hback]
          _ = _ := by simp only [List.append_assoc]
  · next hcolon =>
    cases h
    exact Or.inl ⟨by simpa using hcolon, rfl⟩

/-- Reading the label of a line leaves the line stripped. -/
theorem stripped_of_readLabel {l l' : Listing} {raw line : List Char}
    (h : readLabel l (trim (raw.takeWhile (· != '#'))) = .ok (l', line)) :
    ∃ lead tail, Stripped raw lead line tail := by
  have hraw : raw = raw.takeWhile (· != '#') ++ raw.dropWhile (· != '#') :=
    List.takeWhile_append_dropWhile.symm
  have hcode : ∀ c ∈ raw.takeWhile (· != '#'), c ≠ '#' := by
    intro c hc
    simpa using List.mem_takeWhile_imp (p := (· != '#')) hc
  have hcomment : ∀ c ∈ (raw.dropWhile (· != '#')).head?, c = '#' := by
    intro c hc
    simpa using head?_dropWhile (p := (· != '#')) raw c hc
  obtain ⟨left, right, htrim, hleft, hright⟩ := exists_trim (raw.takeWhile (· != '#'))
  have hhead := head?_trim (raw.takeWhile (· != '#'))
  generalize raw.dropWhile (· != '#') = comment at hraw hcomment
  generalize raw.takeWhile (· != '#') = code at h hraw hcode htrim hhead
  generalize trim code = body at h htrim hhead
  subst htrim hraw
  have hends : ∀ {blanks}, AllBlank blanks →
      ∀ c ∈ (blanks ++ comment).head?, isBlank c = true ∨ c = '#' := by
    intro blanks hblanks c hc
    cases blanks with
    | nil => exact Or.inr (hcomment c hc)
    | cons b blanks => exact Or.inl (hblanks c (List.mem_of_mem_head? hc))
  rcases readLabel_ok h with ⟨hcolon, rfl⟩ | ⟨left', name, mid, right', back, rfl, hlabel⟩
  · refine ⟨left, right ++ comment, by simp only [List.append_assoc], .blank hleft ?_,
      fun c hc => hcode c (by simp [hc]), hhead, hends hright⟩
    have hplain : ∀ c ∈ line ++ right, (c != '#') = true :=
      fun c hc => bne_iff_ne.mpr (hcode c (List.mem_append_right left hc))
    have hstop : comment.takeWhile (· != '#') = [] := by
      cases comment with
      | nil => rfl
      | cons c comment => simp [hcomment c rfl]
    rw [← List.append_assoc, List.takeWhile_append_of_pos hplain, hstop, List.append_nil,
      List.mem_append, not_or]
    exact ⟨hcolon, hright.not_mem (by decide)⟩
  · obtain ⟨hleft', hname, hmid, hright', hback, hfirst⟩ := hlabel
    exact ⟨(left ++ left') ++ (name ++ (mid ++ ':' :: right')), (back ++ right) ++ comment,
      by simp only [List.append_assoc, List.cons_append],
      .label (hleft.append hleft') hname hmid hright', fun c hc => hcode c (by simp [hc]), hfirst,
      hends (hback.append hright)⟩

/-! ## Causes -/

theorem readOperand_ne_instruction {m : Mnemonic} {text : List Char} {mnemonic : String}
    {column : Nat} : readOperand m text ≠ .error (.instruction mnemonic column) := by
  have hnumber : ∀ {negative digits}, readNumber negative digits ≠
      .error (.instruction mnemonic column) := by
    intro negative digits h
    unfold readNumber at h
    split at h <;> cases h
  intro h
  unfold readOperand at h
  split at h
  · split at h <;> cases h
  · dsimp only at h
    split at h
    · cases h
    · split at h
      · cases hn : readNumber (cutSign text).1 (cutSign text).2 with
        | ok value => simp [hn, Except.map] at h
        | error cause =>
            simp only [hn, Except.map, Except.error.injEq] at h
            exact hnumber (hn.trans (congrArg _ h))
      · split at h
        · next f hf =>
          unfold readMemory at h
          split at h
          · cases h
          · cases h
          · split at h
            · cases h
            · cases hn : readNumber f.negative f.digits with
              | ok value => simp [hn, Except.map] at h
              | error cause =>
                  simp only [hn, Except.map, Except.error.injEq] at h
                  exact hnumber (hn.trans (congrArg _ h))
        · cases h

theorem mapM_readOperand_ne_instruction {m : Mnemonic} {texts : List (List Char)}
    {mnemonic : String} {column : Nat} :
    texts.mapM (readOperand m) ≠ .error (.instruction mnemonic column) := by
  induction texts with
  | nil => exact fun h => by cases h
  | cons text texts ih =>
      intro h
      rw [List.mapM_cons] at h
      cases hfirst : readOperand m text with
      | error cause =>
          simp only [hfirst, bind, Except.bind, Except.error.injEq] at h
          exact readOperand_ne_instruction (hfirst.trans (congrArg _ h))
      | ok op =>
          cases hrest : texts.mapM (readOperand m) with
          | error cause =>
              simp only [hfirst, hrest, bind, Except.bind, Except.error.injEq] at h
              exact ih (hrest.trans (congrArg _ h))
          | ok ops =>
              simp only [hfirst, hrest, bind, Except.bind] at h
              cases h

theorem operandFault?_ne_instruction {m : Mnemonic} {operands : List Operand} {mnemonic : String}
    {column : Nat} : operandFault? m operands ≠ some (.instruction mnemonic column) := by
  intro h
  unfold operandFault? at h
  repeat' split at h
  all_goals cases h

/-- Only an unknown mnemonic is refused as an instruction that is not supported. -/
theorem instruction_of_readInstr {raw line : List Char} {mnemonic : String} {column : Nat}
    (h : readInstr raw line = .error (.instruction mnemonic column)) :
    Mnemonic.ofName? mnemonic = none ∧ mnemonic = String.ofList (lower (cutWord line).1) ∧
      column = (indexOf? (cutWord line).1 raw).getD 0 + 1 := by
  unfold readInstr at h
  dsimp only at h
  split at h
  · next hname =>
    cases h
    exact ⟨hname, rfl, rfl⟩
  · next m hm =>
    exfalso
    split at h
    · cases h
    · cases hops : (operandTexts (cutWord line).2).mapM (readOperand m) with
      | error cause =>
          simp only [hops, bind, Except.bind, Except.error.injEq] at h
          exact mapM_readOperand_ne_instruction (hops.trans (congrArg _ h))
      | ok ops =>
          simp only [hops, bind, Except.bind] at h
          split at h
          · next cause hfault =>
            cases h
            exact operandFault?_ne_instruction hfault
          · cases h

/-- A line that is refused for its instruction, with the place where this starts. -/
theorem instruction_of_readLine {l : Listing} {number : Nat} {raw : List Char} {mnemonic : String}
    {column : Nat} (h : readLine l number raw = .error (.instruction mnemonic column)) :
    ∃ lead word after, InstructionAt raw lead word after ∧ Mnemonic.ofName? mnemonic = none ∧
      mnemonic = String.ofList (lower word) ∧ column = (indexOf? word raw).getD 0 + 1 := by
  unfold readLine at h
  cases hlabel : readLabel l (trim (raw.takeWhile (· != '#'))) with
  | error cause =>
      simp only [hlabel, bind, Except.bind, Except.error.injEq] at h
      unfold readLabel at hlabel
      dsimp only at hlabel
      repeat' split at hlabel
      all_goals cases hlabel
      all_goals cases h
  | ok pair =>
      obtain ⟨l₁, line⟩ := pair
      simp only [hlabel, bind, Except.bind] at h
      split at h
      · cases h
      · unfold readDirective at h
        dsimp only at h
        repeat' split at h
        all_goals cases h
      · next hne hdot =>
        cases hinstr : readInstr raw line with
        | ok i => simp [hinstr, pure, Except.pure] at h
        | error cause =>
            simp only [hinstr, Except.error.injEq] at h
            subst h
            obtain ⟨lead, tail, hstripped⟩ := stripped_of_readLabel hlabel
            obtain ⟨after, hat⟩ := hstripped.instructionAt hne fun hfirst => by
              obtain ⟨rest, hrest⟩ := List.head?_eq_some_iff.mp hfirst
              exact hdot rest hrest
            exact ⟨lead, _, after, hat, instruction_of_readInstr hinstr⟩

theorem exists_readLine_of_error {l : Listing} {number : Nat} {lines : List (List Char)}
    {f : ListingFault} (h : readLines l number lines = .error f) :
    ∃ (l' : Listing) (i : Nat) (raw : List Char), lines[i]? = some raw ∧
      f.line = (number + i : Nat) ∧ f.text = String.ofList raw ∧
      readLine l' (number + i) raw = .error f.cause := by
  induction lines generalizing l number with
  | nil => cases h
  | cons raw rest ih =>
      rw [readLines] at h
      cases hline : readLine l number raw with
      | error cause =>
          simp only [hline, Except.error.injEq] at h
          subst h
          exact ⟨l, 0, raw, rfl, rfl, rfl, hline⟩
      | ok l₁ =>
          simp only [hline] at h
          obtain ⟨l', i, raw', hraw, hnumber, htext, hread⟩ := ih h
          have hindex : number + 1 + i = number + (i + 1) := by omega
          rw [hindex] at hnumber hread
          exact ⟨l', i + 1, raw', hraw, hnumber, htext, hread⟩

/-- A listing is refused for one of its lines, or else for a jump to nowhere. -/
theorem exists_readLine_of_read {text filename : String} {f : ListingFault}
    (h : read text filename = .error f) :
    (∃ (l : Listing) (i : Nat) (raw : List Char), (lines text.toList)[i]? = some raw ∧
      f.line = (1 + i : Nat) ∧ f.text = String.ofList raw ∧
      readLine l (1 + i) raw = .error f.cause) ∨ ∃ name, f.cause = .undefinedLabel name := by
  unfold read at h
  cases hlines : readLines { filename := filename } 1 (lines text.toList) with
  | error f' =>
      simp only [hlines, bind, Except.bind, Except.error.injEq] at h
      subst h
      exact Or.inl (exists_readLine_of_error hlines)
  | ok l =>
      simp only [hlines, bind, Except.bind] at h
      split at h
      · next fault hjump =>
        cases h
        obtain ⟨i, -, hi⟩ := Array.exists_of_findSome?_eq_some hjump
        right
        repeat' split at hi
        all_goals cases hi
        exact ⟨_, rfl⟩
      · cases h

/-! ## Columns -/

/-- Nothing but blanks before the instruction leaves no room for the word to stand earlier. -/
theorem InstructionAt.first_of_unlabelled {raw lead word after : List Char}
    (h : InstructionAt raw lead word after) (hcolon : ':' ∉ lead) :
    ∀ i < lead.length, ¬ word <+: raw.drop i := by
  have hblank : AllBlank lead := by
    cases h.lead with
    | blank hblank _ => exact hblank
    | label _ _ _ _ => exact absurd (by simp) hcolon
  intro i hi hstands
  obtain ⟨c, word, rfl⟩ := List.exists_cons_of_ne_nil h.ne_nil
  obtain ⟨rest, hrest⟩ := hstands
  have hc : (raw.drop i).head? = some c := by rw [← hrest]; rfl
  rw [List.head?_drop, h.raw_eq, List.getElem?_append_left hi] at hc
  have hbc := hblank c (List.mem_of_getElem? hc)
  rw [(h.solid c List.mem_cons_self).1] at hbc
  cases hbc

theorem InstructionAt.stands {raw lead word after : List Char}
    (h : InstructionAt raw lead word after) : word <+: raw.drop lead.length := by
  rw [h.raw_eq, List.drop_left]
  exact List.prefix_append word after

theorem exists_carets (line : List Char) (column span : Nat) :
    ∃ carets, 0 < carets ∧ Diagnostic.caretLine line column span =
      padding (line.take (column - 1)) ++ List.replicate carets '^' :=
  ⟨_, Nat.le_max_left 1 _, rfl⟩

/-- The report of an instruction that is not supported quotes its line, and the carets start under
the column. -/
theorem instruction_reported (mnemonic : String) {column : Nat} (hcolumn : 1 ≤ column) (line : Int)
    (raw : List Char) (filename : String) :
    ∃ d carets, ListingFault.failure ⟨.instruction mnemonic column, line, String.ofList raw⟩
        filename = .report d ∧
      d.category = .unsupportedInstruction mnemonic ∧
      d.location = some ⟨filename, line, column, 0⟩ ∧ 0 < carets ∧
      d.excerpt = ["    " ++ String.ofList raw, "    " ++ String.ofList
        (padding (raw.take (column - 1)) ++ List.replicate carets '^')] := by
  obtain ⟨carets, hcarets, hline⟩ := exists_carets raw column (max mnemonic.length 1 : Int).toNat
  refine ⟨_, carets, rfl, rfl, rfl, hcarets, ?_⟩
  rw [← hline]
  simp only [Diagnostic.excerpt, Diagnostic.unsupportedInstruction, Diagnostic.underlining,
    String.toList_ofList, Int.toNat_natCast]
  exact if_pos (by omega)

/-- An instruction that is not supported, and the line it stands on. It is reported at the first
place of the line where its word stands. This is where the instruction starts exactly if the word
does not stand further left, and so on all lines without a label. -/
theorem read_instruction_column {text filename : String} {f : ListingFault} {mnemonic : String}
    {column : Nat} (h : read text filename = .error f)
    (hcause : f.cause = .instruction mnemonic column) :
    ∃ raw lead word after,
      1 ≤ f.line ∧ (lines text.toList)[f.line.toNat - 1]? = some raw ∧
      f.text = String.ofList raw ∧ InstructionAt raw lead word after ∧
      Mnemonic.ofName? mnemonic = none ∧ mnemonic = String.ofList (lower word) ∧
      1 ≤ column ∧ IsLeast {i | word <+: raw.drop i} (column - 1) ∧
      (column = lead.length + 1 ↔ ∀ i < lead.length, ¬ word <+: raw.drop i) ∧
      (':' ∉ lead → column = lead.length + 1) ∧
      ∃ d carets, f.failure filename = .report d ∧
        d.category = .unsupportedInstruction mnemonic ∧
        d.location = some ⟨filename, f.line, column, 0⟩ ∧ 0 < carets ∧
        d.excerpt = ["    " ++ f.text, "    " ++ String.ofList
          (padding (raw.take (column - 1)) ++ List.replicate carets '^')] := by
  obtain ⟨l, i, raw, hraw, hline, htext, hread⟩ | ⟨name, hname⟩ := exists_readLine_of_read h
  · rw [hcause] at hread
    obtain ⟨lead, word, after, hat, hunknown, hmnemonic, hcolumn⟩ := instruction_of_readLine hread
    obtain ⟨k, hk, hleast⟩ := indexOf?_isLeast hat.stands
    rw [hk, Option.getD_some] at hcolumn
    obtain rfl : column - 1 = k := by omega
    have hpos : 1 ≤ column := by omega
    have hfirst : column = lead.length + 1 ↔ ∀ i < lead.length, ¬ word <+: raw.drop i := by
      constructor
      · intro heq i hi hstands
        have hle := hleast.2 hstands
        omega
      · intro hnone
        have hle : column - 1 ≤ lead.length := hleast.2 hat.stands
        have hge : ¬ column - 1 < lead.length := fun hlt => hnone _ hlt hleast.1
        omega
    have hindex : f.line.toNat - 1 = i := by omega
    obtain ⟨cause, line, quoted⟩ := f
    obtain rfl : cause = .instruction mnemonic column := hcause
    obtain rfl : quoted = String.ofList raw := htext
    exact ⟨raw, lead, word, after, by omega, hindex ▸ hraw, rfl, hat, hunknown, hmnemonic, hpos,
      hleast, hfirst, fun hcolon => hfirst.mpr (hat.first_of_unlabelled hcolon),
      instruction_reported mnemonic hpos line raw filename⟩
  · rw [hcause] at hname
    cases hname

/-- On the second line a label, tabs, and an instruction with a comment that repeats its word. -/
def markedHalt : String := "main:\n\tstop:\t hlt # hlt\n"

theorem read_instruction_column_markedHalt :
    ∃ f d raw lead word after, read markedHalt = .error f ∧ f.cause = .instruction "hlt" 9 ∧
      raw = "\tstop:\t hlt # hlt".toList ∧ InstructionAt raw lead word after ∧
      String.ofList (lower word) = "hlt" ∧ IsLeast {i | word <+: raw.drop i} 8 ∧
      f.failure "<listing>" = .report d ∧ d.location = some ⟨"<listing>", 2, 9, 0⟩ := by
  have hread : read markedHalt =
      .error ⟨.instruction "hlt" 9, 2, "\tstop:\t hlt # hlt"⟩ := by
    decide +kernel
  obtain ⟨raw, lead, word, after, -, -, htext, hat, -, hword, -, hleast, -, -, d, -, hd, -, hplace,
    -⟩ := read_instruction_column hread rfl
  have hraw : raw = "\tstop:\t hlt # hlt".toList := by
    rw [← String.toList_ofList (l := raw), ← htext]
  exact ⟨_, d, raw, lead, word, after, hread, rfl, hraw, hat, hword.symm, hleast, hd, hplace⟩

/-- The word of the instruction stands in the label already, and the carets are put there. -/
theorem mainIn_misplaced :
    InstructionAt "main: in".toList "main: ".toList "in".toList [] ∧
      ∃ f d, read "main: in" = .error f ∧ f.cause = .instruction "in" 3 ∧
        f.failure "<listing>" = .report d ∧
        d.render =
          "<listing>:1:3: error: unsupported instruction 'in'\n    main: in\n      ^^" := by
  have hread : read "main: in" = .error ⟨.instruction "in" 3, 1, "main: in"⟩ := by
    decide +kernel
  have hlead : "main: ".toList = [] ++ ("main".toList ++ ([] ++ ':' :: [' '])) := by decide
  refine ⟨⟨by decide, ?_, by decide, ?_, fun c hc => ?_, by decide⟩, _, _, hread, rfl, rfl, ?_⟩
  · rw [hlead]
    exact .label (fun c hc => by cases hc) (by decide) (fun c hc => by cases hc)
      (List.forall_mem_singleton.mpr (by decide))
  · have hall : ("in".toList.all fun c => decide (isBlank c = false ∧ c ≠ '#')) = true := by
      decide
    exact fun c hc => of_decide_eq_true (List.all_eq_true.mp hall c hc)
  · cases hc
  · decide +kernel

end Listing

end StackLang
