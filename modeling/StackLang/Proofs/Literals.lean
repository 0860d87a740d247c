import StackLang.Proofs.CompileFaults
import StackLang.Proofs.Relayout
import StackLang.Proofs.Segmentation

/-!
# Literals of any length

A run of digits that scanning comes to is a number with the value of the run, or it is reported as
out of range. This holds for up to 4300 digits, leading zeros included. A longer run is refused
before it is read, without a report. Nothing else stops a compilation without one.
-/

namespace StackLang

namespace Scan

/-! ## Runs of digits -/

/-- Scanning comes to a run of digits, which ends where no digit follows. -/
structure ComesToDigits (filename : String) (source before digits after : List Char)
    (tokens : List Token) : Prop where
  reached : Reached filename source before (digits ++ after) tokens
  numeral : IsNumeral digits
  ends : ∀ c ∈ after.head?, isDigit c = false

theorem numberPiece_long {digits : List Char} (h : 4300 < digits.length) :
    numberPiece digits = .fault (.tooManyDigits ⟨digits.length⟩) := by
  have hread : Text.digitLimit < digits.length := h
  rw [numberPiece, Text.readDecimal, if_pos hread]

theorem numberPiece_tooManyDigits {digits : List Char} {excess : Text.TooManyDigits}
    (h : numberPiece digits = .fault (.tooManyDigits excess)) : 4300 < digits.length := by
  by_contra hshort
  have hread : ¬ Text.digitLimit < digits.length := hshort
  rw [numberPiece, Text.readDecimal, if_neg hread] at h
  dsimp only at h
  split at h <;> cases h

theorem numberPiece_literalRange {digits : List Char} {text : String}
    (h : numberPiece digits = .fault (.literalRange text)) : text = String.ofList digits := by
  unfold numberPiece at h
  split at h
  · cases h
  · split at h <;> cases h
    rfl

/-- The causes to stop that have to do with digits. -/
def Cause.OfDigits (cause : Cause) : Prop :=
  (∃ text, cause = .literalRange text) ∨ ∃ excess, cause = .tooManyDigits excess

/-- Only a run of digits is ever out of range or too long. -/
theorem digits_of_cut {c : Char} {cs : List Char} {cause : Cause} {n : Nat}
    (h : cut c cs = (.fault cause, n)) (hcause : cause.OfDigits) :
    ∃ digits after, c :: cs = digits ++ after ∧ IsNumeral digits ∧
      (∀ d ∈ after.head?, isDigit d = false) ∧ numberPiece digits = .fault cause := by
  unfold cut at h
  by_cases hspace : isSpace c = true
  · simp [hspace] at h
  by_cases hletter : isLetter c = true
  · simp [hspace, hletter] at h
  by_cases hdigit : isDigit c = true
  · simp only [hspace, hletter, hdigit, Bool.false_eq_true, if_false, if_true,
      Prod.mk.injEq] at h
    obtain ⟨-, -, hstop⟩ := split_run isDigit cs
    exact ⟨_, cs.dropWhile isDigit, by simp, isNumeral_run hdigit cs, hstop, h.1⟩
  simp only [hspace, hletter, hdigit, Bool.false_eq_true, if_false] at h
  rcases hcause with ⟨text, rfl⟩ | ⟨excess, rfl⟩ <;>
  · split at h
    case h_2 => split at h <;> cases h
    all_goals first
      | exact absurd h (cutComparison_ne_fault _ _ _ _ _)
      | cases h

section

variable {filename : String} {source before digits after : List Char} {tokens : List Token}

theorem ComesToDigits.exists_cut (h : ComesToDigits filename source before digits after tokens) :
    ∃ c tail, digits = c :: tail ∧ cut c (tail ++ after) = (numberPiece digits, tail.length) :=
  cut_numeral h.numeral h.ends

/-- A number that can be cut out is the next token. -/
theorem ComesToDigits.tokens_of_lexeme {l : Lexeme}
    (h : ComesToDigits filename source before digits after tokens)
    (hpiece : numberPiece digits = .lexeme l) :
    tokens ++ [⟨l, locationAfter filename before⟩] <+: (scanFrom filename {} source).tokens := by
  obtain ⟨c, tail, rfl, hcut⟩ := h.exists_cut
  rw [hpiece] at hcut
  rw [h.reached.scan, List.cons_append, scanFrom_lexeme hcut, location_advance]
  exact (List.prefix_append_right_inj tokens).mpr ⟨_, rfl⟩

/-- Otherwise scanning stops at the run. -/
theorem ComesToDigits.scan_of_fault {cause : Cause}
    (h : ComesToDigits filename source before digits after tokens)
    (hpiece : numberPiece digits = .fault cause) :
    scanFrom filename {} source = ⟨tokens, some ⟨cause, ({} : Mark).advance before⟩⟩ := by
  obtain ⟨c, tail, rfl, hcut⟩ := h.exists_cut
  rw [hpiece] at hcut
  rw [h.reached.scan, List.cons_append, scanFrom, hcut, List.append_nil]

/-- Every number among the tokens is a run of digits that scanning came to. -/
theorem Reached.comesToDigits {mark : Mark} (h : Reached filename source before after tokens)
    (hmark : mark = ({} : Mark).advance before) {t : Token} {value : Int}
    (ht : t ∈ (scanFrom filename mark after).tokens) (hvalue : t.lexeme = .number value) :
    ∃ before digits after tokens, ComesToDigits filename source before digits after tokens ∧
      digits.length ≤ 4300 ∧ value = (Nat.ofDigitChars 10 digits 0 : Nat) ∧
      t.location = locationAfter filename before := by
  fun_induction scanFrom filename mark after generalizing before tokens with
  | case1 mark =>
      rw [List.mem_singleton.mp ht] at hvalue
      cases hvalue
  | case2 mark c cs cause n hcut => cases ht
  | case3 mark c cs n hcut ih => exact ih (h.gap hcut) (by rw [hmark, advance_append]) ht
  | case4 mark c cs l n hcut ih =>
      rcases List.mem_cons.mp ht with rfl | ht
      · obtain rfl : l = .number value := hvalue
        have hlongest := longestCut_of_cut hcut
        have hn := hlongest.spells.isNumeral
        have hlength := length_of_cut hcut
        have hvalue := hlongest.spells.number_of_isNumeral hn
        rw [← List.take_append_drop n cs, ← List.cons_append] at h
        refine ⟨before, _, _, tokens, ⟨h, hn, hlongest.numeral hn⟩, hlength, ?_, ?_⟩
        · exact Lexeme.number.inj hvalue
        · rw [hmark, location_advance]
      · exact ih (h.lexeme hcut) (by rw [hmark, advance_append]) ht

end

end Scan

open Scan

/-! ## Reports of the scanner and the reader -/

def Category.OfScanner (category : Category) : Prop :=
  category = .lexical ∨ ∃ char, category = .invalidCharacter char

def Category.OfReader (category : Category) : Prop :=
  (∃ expected found, category = .unexpected expected found) ∨
    ∃ found, category = .assignmentTarget found

theorem tokensOf_of_fault {source filename : String} {fault : ScanFault}
    (h : (scan source filename).fault = some fault) :
    tokensOf source filename = .error (fault.failure filename source) := by
  rw [tokensOf, h]

/-- Scanning fails with a report, or else at a run of digits that is too long. -/
theorem tokensOf_error {source filename : String} {f : Failure}
    (h : tokensOf source filename = .error f) :
    (∃ d, f = .report d ∧ d.category.OfScanner) ∨
      ∃ before digits after tokens,
        ComesToDigits filename source.toList before digits after tokens ∧ 4300 < digits.length := by
  cases hfault : (scan source filename).fault with
  | none => simp [tokensOf, hfault] at h
  | some fault =>
      rw [tokensOf_of_fault hfault] at h
      obtain ⟨cause, mark⟩ := fault
      obtain ⟨mid, c, cs, n, tokens, hreached, hcut, -⟩ := Reached.start.exists_stop hfault
      cases cause with
      | tooManyDigits excess =>
          obtain ⟨digits, after, hsplit, hn, hends, hpiece⟩ :=
            digits_of_cut hcut (Or.inr ⟨excess, rfl⟩)
          rw [hsplit] at hreached
          exact Or.inr ⟨_, digits, after, tokens, ⟨hreached, hn, hends⟩,
            numberPiece_tooManyDigits hpiece⟩
      | unterminatedComment | literalRange digits =>
          cases h
          exact Or.inl ⟨_, rfl, Or.inl rfl⟩
      | loneBang | invalidCharacter c =>
          cases h
          exact Or.inl ⟨_, rfl, Or.inr ⟨_, rfl⟩⟩

theorem ParseFault.ofReader {fault : ParseFault} {lines : List String} {d : Diagnostic}
    (h : fault.diagnostic? lines = some d) : d.category.OfReader := by
  cases fault with
  | unexpected expected found =>
      obtain ⟨text, -, rfl⟩ := Option.map_eq_some_iff.mp h
      exact Or.inl ⟨_, _, rfl⟩
  | assignmentTarget start =>
      obtain ⟨text, -, rfl⟩ := Option.map_eq_some_iff.mp h
      exact Or.inr ⟨_, rfl⟩

/-- Given valid options, compiling fails in the scanner or else in the reader. -/
theorem compile_fails {source filename : String} {o : RoutineOptions} {f : Failure}
    (ho : o.fault? = none) (h : compile source filename o = .error f) :
    tokensOf source filename = .error f ∨ ∃ tokens, tokensOf source filename = .ok tokens ∧
      readTokens tokens (Text.sourceLines source) (·.parseProgram filename) = .error f := by
  cases htokens : tokensOf source filename with
  | error f' =>
      simp only [compile, ho, compileWithEvents, htokens, Except.error.injEq] at h
      exact Or.inl (congrArg _ h)
  | ok tokens =>
      cases hread : readTokens tokens (Text.sourceLines source) (·.parseProgram filename) with
      | error f' =>
          simp only [compile, ho, compileWithEvents, htokens, hread, Except.error.injEq] at h
          exact Or.inr ⟨tokens, rfl, hread.trans (congrArg _ h)⟩
      | ok p =>
          have hp : parseSource source filename = .ok p := by
            simp only [parseSource, htokens, bind, Except.bind, hread]
          obtain ⟨c, frame, hc, -⟩ := compile_of_parseSource hp ho
          rw [hc] at h
          cases h

theorem compile_error {source filename : String} {o : RoutineOptions} {f : Failure}
    (ho : o.fault? = none) (h : compile source filename o = .error f) :
    tokensOf source filename = .error f ∨ ∃ d, f = .report d ∧ d.category.OfReader := by
  rcases compile_fails ho h with hscan | ⟨tokens, htokens, hread⟩
  · exact Or.inl hscan
  · obtain ⟨_, _, _, _, d, -, -, hd, rfl⟩ := readTokens_reports htokens hread
    exact Or.inr ⟨d, rfl, ParseFault.ofReader hd⟩

/-! ## Literals -/

/-- A run of up to 4300 digits that scanning comes to is the next token, with the value of the run,
if this is a signed word, and else it is reported as out of range, underlined from its start to its
end. A longer run is refused without a report. All numbers among the tokens are such runs. If a text
cannot be scanned or compiled, the scanner or the reader reports it, or there is a run that is too
long. -/
theorem literal_exact_or_refused (source filename : String) :
    (∀ before digits after tokens,
      ComesToDigits filename source.toList before digits after tokens →
      (digits.length ≤ 4300 → Nat.ofDigitChars 10 digits 0 ≤ 2 ^ 63 - 1 →
        tokens ++
            [⟨.number (Nat.ofDigitChars 10 digits 0 : Nat), locationAfter filename before⟩] <+:
          (scan source filename).tokens) ∧
      (digits.length ≤ 4300 → 2 ^ 63 - 1 < Nat.ofDigitChars 10 digits 0 →
        ∃ d, tokensOf source filename = .error (.report d) ∧ d.category = .lexical ∧
          d.message = "integer literal '" ++ String.ofList digits ++ "' out of range" ∧
          d.location = some (locationAfter filename before) ∧ d.span = digits.length) ∧
      (4300 < digits.length →
        tokensOf source filename =
          .error (.invalidValue (Text.TooManyDigits.message ⟨digits.length⟩)))) ∧
    (∀ t ∈ (scan source filename).tokens, ∀ value, t.lexeme = .number value →
      ∃ before digits after tokens,
        ComesToDigits filename source.toList before digits after tokens ∧
          digits.length ≤ 4300 ∧ value = (Nat.ofDigitChars 10 digits 0 : Nat) ∧
          t.location = locationAfter filename before) ∧
    (∀ f, tokensOf source filename = .error f →
      (∃ d, f = .report d ∧ d.category.OfScanner) ∨
        ∃ before digits after tokens,
          ComesToDigits filename source.toList before digits after tokens ∧
            4300 < digits.length) ∧
    ∀ o f, o.fault? = none → compile source filename o = .error f →
      (∃ d, f = .report d ∧ (d.category.OfScanner ∨ d.category.OfReader)) ∨
        ∃ before digits after tokens,
          ComesToDigits filename source.toList before digits after tokens ∧
            4300 < digits.length := by
  refine ⟨?_, fun t ht value hvalue => Reached.start.comesToDigits rfl ht hvalue,
    fun f => tokensOf_error, fun o f ho hf => ?_⟩
  · intro before digits after tokens h
    refine ⟨fun hlen hvalue => ?_, fun hlen hvalue => ?_, fun hlong => ?_⟩
    · refine h.tokens_of_lexeme ?_
      rw [numberPiece_eq h.numeral hlen, if_neg (Nat.not_lt.mpr hvalue)]
    · have hpiece := numberPiece_eq h.numeral hlen
      rw [if_pos hvalue] at hpiece
      have hfault := congrArg Scan.fault (h.scan_of_fault hpiece)
      refine ⟨_, tokensOf_of_fault hfault, rfl, rfl, ?_, ?_⟩
      · exact congrArg some (location_advance filename before)
      · have hpos : 1 ≤ digits.length := List.length_pos_iff.mpr h.numeral.1
        exact (congrArg (max · 1) String.length_ofList).trans (max_eq_left hpos)
    · have hfault := congrArg Scan.fault (h.scan_of_fault (numberPiece_long hlong))
      exact tokensOf_of_fault hfault
  · rcases compile_error ho hf with hf | ⟨d, hd, hreader⟩
    · rcases tokensOf_error hf with ⟨d, hd, hscanner⟩ | hlong
      · exact Or.inl ⟨d, hd, Or.inl hscanner⟩
      · exact Or.inr hlong
    · exact Or.inl ⟨d, hd, Or.inr hreader⟩

/-- A number with leading zeros, a number in a comment, and one that is too large by one. -/
def byOne : String := "n=007/*9*/-9223372036854775808"

theorem literal_exact_or_refused_byOne :
    ∃ before digits after tokens d,
      ComesToDigits "<input>" byOne.toList before digits after tokens ∧
      tokens.map Token.lexeme =
        [.identifier "n", .symbol .assign "=", .number 7, .symbol .minus "-"] ∧
      tokensOf byOne = .error (.report d) ∧ d.category = .lexical ∧
      d.message = "integer literal '9223372036854775808' out of range" ∧
      d.location = some ⟨"<input>", 1, 12, 11⟩ ∧ d.span = 19 := by
  have hfault : (scan byOne).fault =
      some ⟨.literalRange "9223372036854775808", ⟨1, 12, 11, 0⟩⟩ := by
    decide +kernel
  obtain ⟨before, c, cs, n, tokens, hreached, hcut, hmark⟩ := Reached.start.exists_stop hfault
  obtain ⟨digits, after, hsplit, hn, hends, hpiece⟩ := digits_of_cut hcut (Or.inl ⟨_, rfl⟩)
  have hdigits : "9223372036854775808".toList = digits := by
    rw [numberPiece_literalRange hpiece, String.toList_ofList]
  subst hdigits
  rw [hsplit, List.nil_append] at hreached
  have hcomes : ComesToDigits "<input>" byOne.toList before "9223372036854775808".toList after
      tokens := ⟨hreached, hn, hends⟩
  obtain ⟨d, hd, hcategory, hmessage, hplace, hspan⟩ :=
    ((literal_exact_or_refused byOne "<input>").1 _ _ _ _ hcomes).2.1 (by decide +kernel)
      (by decide +kernel)
  refine ⟨before, _, after, tokens, d, hcomes, ?_, hd, hcategory, ?_, ?_, ?_⟩
  · have htokens : (scan byOne).tokens = tokens :=
      congrArg Scan.tokens (hcomes.scan_of_fault hpiece)
    rw [← htokens]
    decide +kernel
  · rw [hmessage]
    decide +kernel
  · rw [hplace, ← location_advance, ← hmark]
    rfl
  · rw [hspan]
    decide +kernel

/-- The number seven with leading zeros. -/
def zeroPadded (zeros : Nat) : List Char :=
  List.replicate zeros '0' ++ ['7']

theorem value_zeroPadded (zeros : Nat) : Nat.ofDigitChars 10 (zeroPadded zeros) 0 = 7 := by
  rw [zeroPadded, Nat.ofDigitChars_append, Nat.ofDigitChars_replicate_zero, Nat.mul_zero]
  rfl

theorem isNumeral_zeroPadded (zeros : Nat) : IsNumeral (zeroPadded zeros) := by
  refine ⟨List.append_ne_nil_of_right_ne_nil _ (List.cons_ne_nil _ _), fun c hc => ?_⟩
  rcases List.mem_append.mp hc with hc | hc
  · rw [List.eq_of_mem_replicate hc]
    decide
  · rw [List.mem_singleton.mp hc]
    decide

/-- The value of a run does not matter if the run is too long. -/
theorem tokensOf_zeroPadded {zeros : Nat} (h : 4300 ≤ zeros) :
    tokensOf (String.ofList (zeroPadded zeros)) =
      .error (.invalidValue (Text.TooManyDigits.message ⟨zeros + 1⟩)) := by
  have hlength : (zeroPadded zeros).length = zeros + 1 := by
    rw [zeroPadded, List.length_append, List.length_replicate, List.length_singleton]
  have hcomes : ComesToDigits "<input>" (zeroPadded zeros) [] (zeroPadded zeros) [] [] :=
    ⟨by rw [List.append_nil]; exact .start, isNumeral_zeroPadded zeros, by simp⟩
  have hscan := hcomes.scan_of_fault (numberPiece_long (by rw [hlength]; exact Nat.lt_succ_of_le h))
  rw [hlength, ← String.toList_ofList (l := zeroPadded zeros)] at hscan
  exact tokensOf_of_fault (congrArg Scan.fault hscan)

/-- Seven is within range, but neither scanned nor compiled, and there is no report. -/
theorem paddedSeven_refused :
    Nat.ofDigitChars 10 (zeroPadded 4300) 0 = 7 ∧
      tokensOf (String.ofList (zeroPadded 4300)) =
        .error (.invalidValue (Text.TooManyDigits.message ⟨4301⟩)) ∧
      compile (String.ofList (zeroPadded 4300)) =
        .error (.invalidValue (Text.TooManyDigits.message ⟨4301⟩)) := by
  have htokens := tokensOf_zeroPadded (Nat.le_refl 4300)
  have ho : RoutineOptions.fault? {} = none := by decide
  refine ⟨value_zeroPadded 4300, htokens, ?_⟩
  rw [compile, ho, compileWithEvents, htokens]

end StackLang
