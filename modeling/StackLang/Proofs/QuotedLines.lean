import StackLang.Proofs.Literals
import StackLang.Proofs.Quotation

/-!
# Quoted lines

Reports of the scanner and of the reader quote the line of the source that they point into. The
reader quotes from a table, in which lines have lost the carriage returns at their ends. The scanner
quotes the line as it stands. So the two agree on all lines but those that end in a carriage return,
whatever else the lines hold.
-/

namespace StackLang

open Scan Text

namespace Text

theorem dropTrailing_eq_self_iff {p : Char → Bool} {cs : List Char} :
    dropTrailing p cs = cs ↔ ∀ c, cs.getLast? = some c → p c = false := by
  refine List.rdropWhile_eq_self_iff.trans ⟨fun h c hc => ?_, fun h hne => ?_⟩
  · obtain ⟨front, rfl⟩ := List.getLast?_eq_some_iff.mp hc
    simpa using h (by simp)
  · simpa using h _ (List.getLast?_eq_some_getLast hne)

/-- A line of the table is the line as it stands, unless that ends in a carriage return. -/
theorem tableLine_eq_iff {line : List Char} :
    String.ofList (dropTrailing (· == '\r') line) = String.ofList line ↔
      line.getLast? ≠ some '\r' := by
  rw [String.ofList_inj, dropTrailing_eq_self_iff]
  constructor
  · intro h hlast
    exact absurd (h _ hlast) (by decide)
  · intro h c hlast
    rw [beq_eq_false_iff_ne]
    rintro rfl
    exact h hlast

end Text

namespace Scan

/-- A position knows where its line starts. -/
theorem lineStart_advance (before : List Char) :
    (({} : Mark).advance before).lineStart + (before.rtakeWhile (· != '\n')).length =
      before.length := by
  induction before using List.reverseRecOn with
  | nil => rfl
  | append_singleton before c ih =>
      have hoffset : (({} : Mark).advance before).offset = before.length :=
        Int.ofNat.inj (congrArg Location.offset (location_advance "" before))
      rw [advance_append, Mark.advance, List.foldl_cons, List.foldl_nil, Mark.next,
        List.length_append]
      by_cases hc : c = '\n'
      · subst hc
        rw [List.rtakeWhile_concat_neg _ _ _ (by decide), if_pos rfl, hoffset]
        rfl
      · rw [List.rtakeWhile_concat_pos _ _ _ (by simpa using hc), if_neg hc, List.length_append,
          ← ih]
        exact (Nat.add_assoc _ _ _).symm

/-- What the scanner quotes at a place is the line that the place is on. -/
theorem lineFrom_advance {source : String} {before after : List Char}
    (hsource : source.toList = before ++ after) :
    lineFrom source (({} : Mark).advance before).lineStart =
      String.ofList (before.rtakeWhile (· != '\n') ++ after.takeWhile (· != '\n')) := by
  have hsplit := List.rdropWhile_append_rtakeWhile (p := (· != '\n')) (l := before)
  have hlength := congrArg List.length hsplit
  rw [List.length_append] at hlength
  have hstart := lineStart_advance before
  have hlead : before.drop (({} : Mark).advance before).lineStart =
      before.rtakeWhile (· != '\n') := by
    have habove : (({} : Mark).advance before).lineStart =
        (before.rdropWhile (· != '\n')).length := by
      omega
    calc before.drop (({} : Mark).advance before).lineStart
        = (before.rdropWhile (· != '\n') ++ before.rtakeWhile (· != '\n')).drop
            (before.rdropWhile (· != '\n')).length := by rw [habove, hsplit]
      _ = before.rtakeWhile (· != '\n') := List.drop_left
  rw [lineFrom, hsource, List.drop_append_of_le_length (by omega), hlead,
    List.takeWhile_append_of_pos fun c => ne_newline_of_mem_lead]

end Scan

/-! ## Places of reports -/

/-- The report points at the place between `before` and `after`. -/
structure PointsAt (d : Diagnostic) (source filename : String) (before after : List Char) :
    Prop where
  source_eq : source.toList = before ++ after
  location_eq : d.location = some (locationAfter filename before)

/-- The scanner reports the place where it stopped, and quotes the line as it stands. -/
theorem tokensOf_quotes {source filename : String} {d : Diagnostic}
    (h : tokensOf source filename = .error (.report d)) :
    d.category.OfScanner ∧ ∃ before after, PointsAt d source filename before after ∧
      d.sourceLine = some (String.ofList
        (before.rtakeWhile (· != '\n') ++ after.takeWhile (· != '\n'))) := by
  cases hfault : (scan source filename).fault with
  | none => simp [tokensOf, hfault] at h
  | some fault =>
      rw [tokensOf_of_fault hfault] at h
      obtain ⟨cause, mark⟩ := fault
      obtain ⟨mid, c, cs, n, tokens, hreached, -, hmark⟩ := Reached.start.exists_stop hfault
      have hsource : source.toList = mid ++ (c :: cs) := hreached.segmented.source_eq
      obtain rfl : mark = ({} : Mark).advance mid := hmark
      have hplace := location_advance filename mid
      have hline := congrArg some (lineFrom_advance hsource)
      cases cause with
      | tooManyDigits excess => cases h
      | unterminatedComment | literalRange digits =>
          cases h
          exact ⟨Or.inl rfl, mid, c :: cs, ⟨hsource, congrArg some hplace⟩, hline⟩
      | loneBang | invalidCharacter char =>
          cases h
          exact ⟨Or.inr ⟨_, rfl⟩, mid, c :: cs, ⟨hsource, congrArg some hplace⟩, hline⟩

/-- The reader reports a token of the text, and quotes the line that the table has for it. -/
theorem readTokens_quotes {source filename : String} {tokens : List Token} {d : Diagnostic}
    (htokens : tokensOf source filename = .ok tokens)
    (h : readTokens tokens (sourceLines source) (·.parseProgram filename) = .error (.report d)) :
    d.category.OfReader ∧ ∃ before after, PointsAt d source filename before after ∧
      d.sourceLine = lineAt? (sourceLines source) (locationAfter filename before).line := by
  obtain ⟨ts, t, fault, blamed, _, hmem, hblames, hd, hf⟩ := readTokens_reports htokens h
  cases hf
  obtain ⟨hlocation, hline⟩ := hblames.report hd
  refine ⟨ParseFault.ofReader hd, ?_⟩
  rcases place_of_mem htokens hmem with hplace | ⟨before, text, after, hsource, hplace, -⟩
  · rw [hplace] at hlocation hline
    exact ⟨source.toList, [], ⟨(List.append_nil _).symm, hlocation⟩, hline⟩
  · rw [hplace] at hlocation hline
    exact ⟨before, text ++ after, ⟨hsource, hlocation⟩, hline⟩

theorem Category.OfReader.not_ofScanner {category : Category} (h : category.OfReader) :
    ¬ category.OfScanner := by
  rintro (rfl | ⟨char, rfl⟩) <;> rcases h with ⟨_, _, h⟩ | ⟨_, h⟩ <;> cases h

/-- A text that is not compiled. The report points at a place of the text, and quotes the line that
the place is on: as it stands if the scanner reports, and without the carriage returns at its end if
the reader does. What is quoted is the line that the table of lines has, unless the scanner reports
on a line that ends in a carriage return, and these lines are the only ones that differ from those
in the table. -/
theorem report_quotes_line (source filename : String) :
    (∀ before after, source.toList = before ++ after →
      ∃ line, (source.toList.splitOn '\n')[before.count '\n']? = some line ∧
        lineFrom source (({} : Mark).advance before).lineStart = String.ofList line ∧
        (lineAt? (sourceLines source) (({} : Mark).advance before).line =
            some (lineFrom source (({} : Mark).advance before).lineStart) ↔
          line.getLast? ≠ some '\r')) ∧
    ∀ o d, compile source filename o = .error (.report d) →
      ∃ before after line, source.toList = before ++ after ∧
        d.location = some (locationAfter filename before) ∧
        line = before.rtakeWhile (· != '\n') ++ after.takeWhile (· != '\n') ∧
        (d.category.OfScanner ∧ d.sourceLine = some (String.ofList line) ∨
          d.category.OfReader ∧
            d.sourceLine = some (String.ofList (dropTrailing (· == '\r') line))) ∧
        (d.sourceLine = lineAt? (sourceLines source) (locationAfter filename before).line ↔
          ¬ (d.category.OfScanner ∧ line.getLast? = some '\r')) := by
  constructor
  · intro before after hsource
    have hline : ((({} : Mark).advance before).line : Int) = (locationAfter filename before).line :=
      congrArg Location.line (location_advance filename before)
    refine ⟨_, hsource ▸ getElem?_splitOn before after, lineFrom_advance hsource, ?_⟩
    rw [hline, sourceLines, lineAt?_place hsource, lineFrom_advance hsource, Option.some_inj]
    exact tableLine_eq_iff
  · intro o d hd
    cases ho : o.fault? with
    | some fault =>
        rw [compile, ho] at hd
        cases hd
    | none =>
        rcases compile_fails ho hd with hscan | ⟨tokens, htokens, hread⟩
        · obtain ⟨hkind, before, after, ⟨hsource, hplace⟩, hquote⟩ := tokensOf_quotes hscan
          refine ⟨before, after, _, hsource, hplace, rfl, Or.inl ⟨hkind, hquote⟩, ?_⟩
          rw [hquote, sourceLines, lineAt?_place hsource, Option.some_inj, eq_comm,
            tableLine_eq_iff]
          exact ⟨fun h hboth => h hboth.2, fun h hlast => h ⟨hkind, hlast⟩⟩
        · obtain ⟨hkind, before, after, ⟨hsource, hplace⟩, hquote⟩ :=
            readTokens_quotes htokens hread
          refine ⟨before, after, _, hsource, hplace, rfl, Or.inr ⟨hkind, ?_⟩,
            iff_of_true hquote fun hboth => hkind.not_ofScanner hboth.1⟩
          rw [hquote, sourceLines, lineAt?_place hsource]

/-- A comment over two lines, a form feed, a carriage return inside a line and a line separator,
around a character that is none of the language. -/
def mixedBreaks : String := "a = 1; /* \r\n */\r\n\x0c b =\r a @ 2;\u2028\nc = b;\r\n"

theorem report_quotes_line_mixedBreaks :
    ∃ d, compile mixedBreaks = .error (.report d) ∧ d.category = .invalidCharacter "@" ∧
      d.location = some ⟨"<input>", 3, 10, 26⟩ ∧ d.sourceLine = some "\x0c b =\r a @ 2;\u2028" ∧
      d.sourceLine = lineAt? (sourceLines mixedBreaks) 3 := by
  have hcheck : ((reportOf? (compile mixedBreaks)).any fun d => decide
      (d.category = .invalidCharacter "@" ∧ d.location = some ⟨"<input>", 3, 10, 26⟩)) = true := by
    decide +kernel
  obtain ⟨d, hd, hreport⟩ := exists_report_of_any hcheck
  obtain ⟨hkind, hlocation⟩ := of_decide_eq_true hreport
  obtain ⟨before, after, line, hsource, hplace, hline, hquote, hagrees⟩ :=
    (report_quotes_line mixedBreaks "<input>").2 {} d hd
  have hlength : before.length = 26 := by
    have hoffset := congrArg Location.offset (Option.some.inj (hplace.symm.trans hlocation))
    exact Int.ofNat.inj hoffset
  have hfront : before = mixedBreaks.toList.take 26 := by
    rw [hsource, ← hlength, List.take_left]
  have hback : after = mixedBreaks.toList.drop 26 := by
    rw [hsource, ← hlength, List.drop_left]
  obtain rfl : line = "\x0c b =\r a @ 2;\u2028".toList := by
    rw [hline, hfront, hback]
    decide +kernel
  have hscanner : d.category.OfScanner := hkind ▸ Or.inr ⟨_, rfl⟩
  have htable := hagrees.mpr fun hboth => absurd hboth.2 (by decide)
  refine ⟨d, hd, hkind, hlocation, ?_, ?_⟩
  · rcases hquote with ⟨-, hquote⟩ | ⟨hreader, -⟩
    · rw [hquote, String.ofList_toList]
    · exact absurd hscanner hreader.not_ofScanner
  · rw [htable, Option.some.inj (hplace.symm.trans hlocation)]

/-- The carriage return at the end of a line is quoted by the scanner, and is not in the table. -/
theorem strayBeforeReturn_quoted :
    ∃ d, compile "a = $;\r\n" = .error (.report d) ∧ d.category = .invalidCharacter "$" ∧
      d.location = some ⟨"<input>", 1, 5, 4⟩ ∧ d.sourceLine = some "a = $;\r" ∧
      lineAt? (sourceLines "a = $;\r\n") 1 = some "a = $;" ∧
      d.render = "<input>:1:5: error: invalid character '$'\n    a = $;\r\n        ^" := by
  have hcheck : ((reportOf? (compile "a = $;\r\n")).any fun d => decide
      (d.category = .invalidCharacter "$" ∧ d.location = some ⟨"<input>", 1, 5, 4⟩ ∧
        d.sourceLine = some "a = $;\r" ∧
        lineAt? (sourceLines "a = $;\r\n") 1 = some "a = $;" ∧
        d.render =
          "<input>:1:5: error: invalid character '$'\n    a = $;\r\n        ^")) = true := by
    decide +kernel
  obtain ⟨d, hd, hreport⟩ := exists_report_of_any hcheck
  exact ⟨d, hd, of_decide_eq_true hreport⟩

end StackLang
