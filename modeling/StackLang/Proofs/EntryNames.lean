import StackLang.Proofs.CommandOutput
import StackLang.Proofs.Cuts
import StackLang.Proofs.MachineFaults

/-!
# Names that routines are given

A routine writes its name twice, as a global symbol and as the label in front of its code. A command
takes any word of letters, digits and low lines for a name, with or without a line feed behind it.
The text of a routine named by a word is a listing that starts with it. A line feed behind the word
leaves the word on a line of its own, in front of a label without a name, and no listing reads so.
-/

namespace StackLang

open Text Scan

/-! ## Words -/

theorem isLabelStart_of_isLetter {c : Char} (h : isLetter c = true) :
    Listing.isLabelStart c = true := by
  have hletter : ('a' ≤ c && c ≤ 'z' || 'A' ≤ c && c ≤ 'Z' || c == '_') = true := h
  simp [Listing.isLabelStart, hletter]

theorem isLabelPart_of_isNamePart {c : Char} (h : isNamePart c = true) :
    Listing.isLabelPart c = true := by
  rw [isNamePart, Bool.or_eq_true] at h
  rcases h with hletter | hdigit
  · exact isLabelPart_of_isLabelStart (isLabelStart_of_isLetter hletter)
  · exact isLabelPart_of_isDigit hdigit

namespace Scan

theorem isWord_cons {c : Char} {cs : List Char} :
    IsWord (c :: cs) ↔ isLetter c = true ∧ ∀ d ∈ cs, isNamePart d = true := by
  constructor
  · rintro ⟨⟨d, hd, hletter⟩, hparts⟩
    cases hd
    exact ⟨hletter, fun d hd => hparts d (List.mem_cons_of_mem c hd)⟩
  · rintro ⟨hletter, hparts⟩
    refine ⟨⟨c, rfl, hletter⟩, fun d hd => ?_⟩
    rcases List.mem_cons.mp hd with rfl | hd
    · exact isNamePart_of_isLetter hletter
    · exact hparts d hd

namespace IsWord

variable {word : List Char}

theorem exists_cons (h : IsWord word) :
    ∃ c cs, word = c :: cs ∧ isLetter c = true ∧ ∀ d ∈ cs, isNamePart d = true := by
  cases word with
  | nil =>
      obtain ⟨c, hc, -⟩ := h.1
      cases hc
  | cons c cs => exact ⟨c, cs, rfl, isWord_cons.mp h⟩

theorem lineFeed_not_mem (h : IsWord word) : '\n' ∉ word :=
  fun hc => absurd (h.2 _ hc) (by decide)

theorem isLabelName (h : IsWord word) : Listing.isLabelName word = true := by
  obtain ⟨c, cs, rfl, hletter, hparts⟩ := h.exists_cons
  rw [Listing.isLabelName, isLabelStart_of_isLetter hletter, Bool.true_and, List.all_eq_true]
  exact fun d hd => isLabelPart_of_isNamePart (hparts d hd)

theorem head?_ne_dot (h : IsWord word) : word.head? ≠ some '.' := by
  obtain ⟨c, cs, rfl, hletter, -⟩ := h.exists_cons
  intro hdot
  cases hdot
  revert hletter
  decide

theorem isPlain (h : IsWord word) : word ≠ [] ∧ ∀ c ∈ word, Text.isPlain c = true :=
  isPlain_of_isLabelName h.isLabelName

theorem framed (h : IsWord word) : Framed word :=
  framed_of_isPlain h.isPlain.1 h.isPlain.2

theorem readable_global (h : IsWord word) : (Line.global (String.ofList word)).Readable := by
  show Listing.isLabelName (String.ofList word).toList = true
  rw [String.toList_ofList]
  exact h.isLabelName

end IsWord

end Scan

theorem EntryName.of_isWord {name : String} (h : IsWord name.toList) : EntryName name :=
  .of_head h.isLabelName h.head?_ne_dot

/-- What a command takes for a name: a word, with a line feed behind it or not. -/
theorem CommandLine.isSymbolName_iff {name : String} :
    isSymbolName name = true ↔
      IsWord name.toList ∨ ∃ word, IsWord word ∧ name.toList = word ++ ['\n'] := by
  unfold isSymbolName
  generalize name.toList = text
  cases text with
  | nil =>
      refine ⟨fun h => absurd h (by decide), ?_⟩
      rintro (hword | ⟨word, -, hnil⟩)
      · obtain ⟨c, cs, hcons, -⟩ := hword.exists_cons
        cases hcons
      · simp at hnil
  | cons c cs =>
      simp only [Bool.and_eq_true, List.all_eq_true]
      by_cases hlast : cs.getLast? = some '\n'
      · obtain ⟨body, rfl⟩ := List.getLast?_eq_some_iff.mp hlast
        rw [if_pos hlast, List.dropLast_concat, ← isWord_cons, ← List.cons_append]
        constructor
        · exact fun hword => Or.inr ⟨_, hword, rfl⟩
        · rintro (hword | ⟨word, hword, heq⟩)
          · exact absurd (List.mem_append_right _ List.mem_cons_self) hword.lineFeed_not_mem
          · rwa [List.append_cancel_right heq]
      · rw [if_neg hlast, ← isWord_cons]
        refine ⟨Or.inl, ?_⟩
        rintro (hword | ⟨word, hword, heq⟩)
        · exact hword
        · obtain ⟨c', cs', rfl, -⟩ := hword.exists_cons
          obtain ⟨rfl, rfl⟩ := List.cons.inj heq
          exact absurd List.getLast?_concat hlast

/-! ## A word on a line of its own -/

theorem indexOf?_self {word : List Char} (h : word ≠ []) : indexOf? word word = some 0 := by
  obtain ⟨c, cs, rfl⟩ := List.exists_cons_of_ne_nil h
  rw [indexOf?, if_pos (by simp)]

namespace Listing

/-- A word is read as an instruction without operands. -/
theorem readInstr_word {word : List Char} (h : IsWord word) :
    readInstr word word =
      match Mnemonic.ofName? (String.ofList (lower word)) with
      | none => .error (.instruction (String.ofList (lower word)) 1)
      | some m => if m.operandCount = 0 then .ok ⟨m, []⟩ else .error (.operandCount m 0) := by
  have hcut : cutWord word = (word, []) :=
    cutWord_word fun c hc => not_isBlank_of_isPlain (h.isPlain.2 c hc)
  have htexts : operandTexts [] = [] := rfl
  simp only [readInstr, hcut, htexts, indexOf?_self h.isPlain.1]
  cases Mnemonic.ofName? (String.ofList (lower word)) with
  | none => rfl
  | some m =>
      by_cases hcount : m.operandCount = 0
      · simp only [hcount, if_true]
        rfl
      · have hcount' : ([] : List (List Char)).length ≠ m.operandCount := Ne.symm hcount
        simp only [hcount, if_false, ne_eq, hcount', not_false_eq_true, if_true]
        rfl

theorem readLines_of_ok {l l' : Listing} {number : Nat} {raw : List Char}
    (h : readLine l number raw = .ok l') (rest : List (List Char)) :
    readLines l number (raw :: rest) = readLines l' (number + 1) rest := by
  rw [readLines, h]

theorem readLine_nil (l : Listing) (number : Nat) : readLine l number [] = .ok l := rfl

theorem readLine_word (l : Listing) (number : Nat) {word : List Char} (h : IsWord word) :
    readLine l number word = (readInstr word word).map fun i =>
      { l with instructions := l.instructions.push ⟨i, number, String.ofList word⟩ } := by
  have hlabel := readLabel_framed l 0 h.framed
  simp only [List.replicate_zero, List.nil_append] at hlabel
  obtain ⟨c, cs, rfl, -⟩ := h.exists_cons
  rw [readLine, hlabel]
  simp only [bind, Except.bind]
  split
  · next heq => cases heq
  · next heq => exact absurd (congrArg List.head? heq) h.head?_ne_dot
  · cases readInstr (c :: cs) (c :: cs) <;> rfl

end Listing

/-- How a listing is refused if the name of its routine is this word and a line feed. The word then
stands on the fourth line, and the colon behind it on the fifth. -/
def strayWord (word : List Char) : ListingFault :=
  let lowered := String.ofList (lower word)
  match Mnemonic.ofName? lowered with
  | none => ⟨.instruction lowered 1, 4, String.ofList word⟩
  | some m =>
    if m.operandCount = 0 then ⟨.invalidLabel "", 5, ":"⟩
    else ⟨.operandCount m 0, 4, String.ofList word⟩

theorem strayWord_reported (word : List Char) (filename : String) :
    ∃ d, (strayWord word).failure filename = .report d ∧
      (d.category = .assembly ∨ ∃ mnemonic, d.category = .unsupportedInstruction mnemonic) := by
  unfold strayWord
  dsimp only
  split
  · exact ⟨_, rfl, Or.inr ⟨_, rfl⟩⟩
  · split
    · exact ⟨_, rfl, Or.inl rfl⟩
    · exact ⟨_, rfl, Or.inl rfl⟩

theorem Listing.readLines_stray (l : Listing) {word : List Char} (h : IsWord word)
    (rest : List (List Char)) :
    readLines l 4 (word :: [':'] :: rest) = .error (strayWord word) := by
  have hcolon (l : Listing) : readLine l 5 [':'] = .error (.invalidLabel "") := rfl
  rw [readLines, readLine_word l 4 h, readInstr_word h, strayWord]
  cases Mnemonic.ofName? (String.ofList (lower word)) with
  | none => rfl
  | some m =>
      by_cases hcount : m.operandCount = 0
      · simp only [hcount, if_true, Except.map, readLines, hcolon]
        rfl
      · simp only [hcount, if_false, Except.map]
        rfl

/-! ## Routines named by a word and a line feed -/

/-- The line feed behind the name cuts both lines that hold the name. -/
theorem Program.lines_stray (p : Program) {o : RoutineOptions} {word : List Char}
    (hword : IsWord word) (hentry : o.entry.toList = word ++ ['\n']) (labels : Nat) (frame : Int) :
    ∃ rest, lines (Routine.mk (p.code o frame) labels frame).text.toList =
      Line.intelDirective.text.toList :: (Line.global (String.ofList word)).text.toList :: [] ::
        word :: [':'] :: rest := by
  obtain ⟨code, hcode⟩ : ∃ code, p.code o frame =
      ⟨0, .intelDirective⟩ :: ⟨0, .global o.entry⟩ :: Emission.label o.entry :: code := ⟨_, rfl⟩
  have hglobal : (Line.global o.entry).text.toList =
      (Line.global (String.ofList word)).text.toList ++ ['\n'] := by
    simp only [Line.toList_text_global, String.toList_ofList, hentry, List.append_assoc]
  have hlabel : (Emission.label o.entry).line.text.toList = word ++ ['\n', ':'] := by
    rw [Emission.label, Line.text, String.toList_append, hentry, List.append_assoc]
    rfl
  have htext : (Routine.mk (p.code o frame) labels frame).text.toList =
      Line.intelDirective.text.toList ++ '\n' ::
        ((Line.global (String.ofList word)).text.toList ++ '\n' :: ([] ++ '\n' :: (word ++ '\n' ::
          ([':'] ++ '\n' :: (code.map fun e => e.line.text.toList).flatMap (· ++ ['\n']))))) := by
    rw [Routine.toList_text _ (by simp [hcode]), hcode]
    simp only [List.map_cons, List.flatMap_cons, hglobal, hlabel, List.append_assoc,
      List.cons_append, List.nil_append]
  have hdirective : Line.intelDirective.Readable := trivial
  have hsymbol := hword.readable_global
  have hcolon : ∀ c ∈ [':'], isLineEnd c = false := List.forall_mem_singleton.mpr (by decide)
  rw [htext, lines_append hdirective.text_oneLine, lines_append hsymbol.text_oneLine,
    lines_append (by simp), lines_append fun c hc => (hword.framed.not_mark hc).2.2,
    lines_append hcolon]
  exact ⟨_, rfl⟩

/-- The text of a routine is no listing if its name ends with a line feed. -/
theorem Program.read_stray (p : Program) {o : RoutineOptions} {word : List Char}
    (hword : IsWord word) (hentry : o.entry.toList = word ++ ['\n']) (labels : Nat) (frame : Int)
    (filename : String) :
    Listing.read (Routine.mk (p.code o frame) labels frame).text filename =
      .error (strayWord word) := by
  obtain ⟨rest, hlines⟩ := p.lines_stray hword hentry labels frame
  have hdirective : Line.intelDirective.Readable := trivial
  have hsymbol := hword.readable_global
  rw [Listing.read, hlines,
    Listing.readLines_of_ok (Listing.readLine_text _ 1 hdirective (by simp)),
    Listing.readLines_of_ok (Listing.readLine_text _ 2 hsymbol (by simp)),
    Listing.readLines_of_ok (Listing.readLine_nil _ 3),
    Listing.readLines_stray _ hword]
  rfl

/-! ## Names in use -/

/-- The text is a listing that starts with the label of the given name, and the label is where its
code starts. A run from there that fails is cut off, or fails at what an instruction does. -/
def Serves (text name : String) : Prop :=
  (∃ l, Listing.read text = .ok l ∧ l.labels.find? name = some 0 ∧ l.entry = some name) ∧
    ∀ config f, runListing text (some name) config = .error f →
      ∃ d, f = .report d ∧ d.category ∈ [.stepLimit config.maxSteps, .division, .execution]

theorem serves_of_read {text name : String} {l : Listing} (hl : Listing.read text = .ok l)
    (hname : EntryName name) (hlabel : l.labels.find? name = some 0)
    (hentry : l.entry = some name) : Serves text name := by
  refine ⟨⟨l, hl, hlabel, hentry⟩, fun config f hf => ?_⟩
  have hstart : l.startLabel (some name) = name := hname.startLabel (some name) rfl
  simp only [runListing, hl] at hf
  rcases (Listing.read_wellFormed hl).run_cases config (some name) {} with
    ⟨τ, hrun, -⟩ | ⟨fault, τ, hrun, hfault⟩
  · simp only [hrun, reduceCtorEq] at hf
  · simp only [hrun, Except.error.injEq] at hf
    obtain ⟨d, hd, hcategory⟩ := hfault.exists_report l.filename
    refine ⟨d, ?_, hcategory.resolve_right fun hnone => ?_⟩
    · rw [← hf, Fault.failure, hd]
    · rw [hstart, hlabel] at hnone
      cases hnone.1

theorem not_serves_of_error {text name : String} {fault : ListingFault}
    (h : Listing.read text = .error fault) : ¬ Serves text name := by
  rintro ⟨⟨l, hl, -⟩, -⟩
  rw [h] at hl
  cases hl

theorem Compilation.serves {source filename : String} {o : RoutineOptions} {k : Compilation}
    (hk : compile source filename o = .ok k) (hentry : EntryName o.entry)
    (hframe : FewDigits k.routine.frame) : Serves k.assembly o.entry := by
  obtain ⟨frame, H, hroutine⟩ := Compilation.exists_housed hk
  rw [hroutine] at hframe
  obtain ⟨l, hl, hloaded, hlisting⟩ := H.exists_listing hentry hframe "<listing>"
  rw [← hroutine] at hl
  exact serves_of_read hl hentry (k.program.entry_label hloaded) hlisting

theorem Compilation.read_stray {source filename : String} {o : RoutineOptions} {k : Compilation}
    (hk : compile source filename o = .ok k) {word : List Char} (hword : IsWord word)
    (hentry : o.entry.toList = word ++ ['\n']) :
    Listing.read k.assembly = .error (strayWord word) := by
  obtain ⟨frame, -, hroutine⟩ := Compilation.exists_housed hk
  rw [Compilation.assembly, hroutine]
  exact k.program.read_stray hword hentry _ frame "<listing>"

/-- Of the names that a command takes, those without a line feed serve, whatever the program, as
long as the size of its frame is a number that can be read. A name with a line feed at its end makes
the text unreadable, and every run reports that. -/
theorem assembly_serves_iff {source filename : String} {o : RoutineOptions} {k : Compilation}
    (hname : CommandLine.isSymbolName o.entry = true) (hk : compile source filename o = .ok k)
    (hframe : FewDigits k.routine.frame) :
    (Serves k.assembly o.entry ↔ '\n' ∉ o.entry.toList) ∧
      ∀ word, o.entry.toList = word ++ ['\n'] →
        Listing.read k.assembly = .error (strayWord word) ∧
        ∃ d, (∀ config, runListing k.assembly (some o.entry) config = .error (.report d)) ∧
          (d.category = .assembly ∨ ∃ mnemonic, d.category = .unsupportedInstruction mnemonic) := by
  rcases CommandLine.isSymbolName_iff.mp hname with hword | ⟨word, hword, hentry⟩
  · have hserves := Compilation.serves hk (.of_isWord hword) hframe
    refine ⟨iff_of_true hserves hword.lineFeed_not_mem, fun word hentry => ?_⟩
    exact absurd (by simp [hentry]) hword.lineFeed_not_mem
  · have hread := Compilation.read_stray hk hword hentry
    have hfeed : '\n' ∈ o.entry.toList := by simp [hentry]
    refine ⟨iff_of_false (not_serves_of_error hread) (not_not_intro hfeed), fun word' hentry' => ?_⟩
    obtain rfl : word = word' := List.append_cancel_right (hentry.symm.trans hentry')
    obtain ⟨d, hd, hcategory⟩ := strayWord_reported word "<listing>"
    refine ⟨hread, d, fun config => ?_, hcategory⟩
    rw [← hd]
    simp only [runListing, hread]

/-- Its run divides by zero. -/
def inVain : String := "a = 7; return a / (a - 7);"

/-- A routine can be named like an instruction, even one that can stand alone. -/
theorem assembly_serves_iff_ret :
    ∃ k k', compile inVain "<input>" { entry := "ret" } = .ok k ∧
      compile inVain "<input>" { entry := "ret\n" } = .ok k' ∧
      Serves k.assembly "ret" ∧ ¬ Serves k'.assembly "ret\n" ∧
      Listing.read k'.assembly = .error ⟨.invalidLabel "", 5, ":"⟩ := by
  have hcheck : ∀ name ∈ ["ret", "ret\n"], CommandLine.isSymbolName name = true ∧
      ((compile inVain "<input>" { entry := name }).toOption.any fun k =>
        decide (k.routine.frame = 16)) = true := by
    decide +kernel
  obtain ⟨hname, hcompiles⟩ := hcheck "ret" (by simp)
  obtain ⟨hname', hcompiles'⟩ := hcheck "ret\n" (by simp)
  obtain ⟨k, hk, hframe⟩ := exists_ok_of_any hcompiles
  obtain ⟨k', hk', hframe'⟩ := exists_ok_of_any hcompiles'
  have hfew : FewDigits 16 := by decide
  rw [← of_decide_eq_true hframe] at hfew
  have hserves := (assembly_serves_iff hname hk hfew).1
  rw [of_decide_eq_true hframe, ← of_decide_eq_true hframe'] at hfew
  obtain ⟨hserves', hstray⟩ := assembly_serves_iff hname' hk' hfew
  refine ⟨k, k', hk, hk', hserves.mpr (by decide), fun h => hserves'.mp h (by decide), ?_⟩
  exact (hstray "ret".toList (by decide)).1.trans (by decide +kernel)

/-- A name that a command takes, and that makes the shortest program unreadable. -/
theorem mainLineFeed_refused :
    CommandLine.isSymbolName "main\n" = true ∧
      ∃ k, compile "return 42;" "<input>" { entry := "main\n" } = .ok k ∧
        Listing.read k.assembly = .error ⟨.instruction "main" 1, 4, "main"⟩ ∧
        ¬ Serves k.assembly "main\n" := by
  have hcompiles : ((compile "return 42;" "<input>" { entry := "main\n" }).toOption.any fun k =>
      decide (k.routine.frame = 0)) = true := by
    decide +kernel
  obtain ⟨k, hk, -⟩ := exists_ok_of_any hcompiles
  have hword : IsWord "main".toList := ⟨⟨'m', rfl, by decide⟩, List.all_eq_true.mp (by decide)⟩
  have hread := Compilation.read_stray hk hword (by decide)
  have hstray : strayWord "main".toList = ⟨.instruction "main" 1, 4, "main"⟩ := by decide +kernel
  rw [hstray] at hread
  exact ⟨by decide, k, hk, hread, not_serves_of_error hread⟩

end StackLang
