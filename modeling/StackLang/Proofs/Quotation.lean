import StackLang.Proofs.ExprText
import StackLang.Proofs.Interruption
import StackLang.Proofs.Relayout

/-!
# Quoted tokens

A report about a token quotes the token and the line it stands on, and puts carets under it. The
text that is quoted is made from what the token says. For names and symbols this is the text in the
source. A number is written anew, so leading zeros are lost, in the quotation and in the number of
carets.
-/

namespace StackLang

namespace Text

/-! ## Lines -/

theorem splitOn_newline_cons (cs : List Char) :
    ('\n' :: cs).splitOn '\n' = [] :: cs.splitOn '\n' := by
  rw [List.splitOn, List.splitOnP_cons_eq_if_modifyHead, if_pos (by decide), List.splitOn]

theorem splitOn_cons {c : Char} (h : c ≠ '\n') (cs : List Char) :
    (c :: cs).splitOn '\n' = (cs.splitOn '\n').modifyHead (c :: ·) := by
  rw [List.splitOn, List.splitOnP_cons_eq_if_modifyHead, if_neg (by simpa using h), List.splitOn]

/-- What follows a line feed starts a line of its own. -/
theorem getElem?_splitOn_newline (before rest : List Char) (k : Nat) :
    ((before ++ '\n' :: rest).splitOn '\n')[before.count '\n' + 1 + k]? =
      (rest.splitOn '\n')[k]? := by
  induction before with
  | nil =>
      rw [List.nil_append, splitOn_newline_cons, List.count_nil, Nat.zero_add, Nat.add_comm 1 k,
        List.getElem?_cons_succ]
  | cons c before ih =>
      by_cases hc : c = '\n'
      · subst hc
        rw [List.cons_append, splitOn_newline_cons, List.count_cons_self, ← ih]
        have hindex : before.count '\n' + 1 + 1 + k = (before.count '\n' + 1 + k) + 1 := by omega
        rw [hindex, List.getElem?_cons_succ]
      · rw [List.cons_append, splitOn_cons hc, List.count_cons_of_ne hc, List.getElem?_modifyHead,
          if_neg (by omega), ih]

theorem getElem?_splitOn_zero (cs : List Char) :
    (cs.splitOn '\n')[0]? = some (cs.takeWhile (· != '\n')) := by
  induction cs with
  | nil => rfl
  | cons c cs ih =>
      by_cases hc : c = '\n'
      · subst hc
        rw [splitOn_newline_cons, List.takeWhile_cons_of_neg (by decide)]
        rfl
      · rw [splitOn_cons hc, List.getElem?_modifyHead, if_pos rfl, ih, List.takeWhile_cons,
          if_pos (bne_iff_ne.mpr hc)]
        rfl

/-- What is before a place on its line, and the line feed before that if there is one. -/
theorem line_start (before : List Char) :
    before = before.rtakeWhile (· != '\n') ∨
      ∃ above, before = above ++ '\n' :: before.rtakeWhile (· != '\n') := by
  have hsplit := List.rdropWhile_append_rtakeWhile (p := (· != '\n')) (l := before)
  cases hdrop : before.rdropWhile (· != '\n') using List.reverseRecOn with
  | nil =>
      rw [hdrop, List.nil_append] at hsplit
      exact Or.inl hsplit.symm
  | append_singleton above c =>
      have hlast := List.rdropWhile_last_not (· != '\n') before (by rw [hdrop]; simp)
      simp only [hdrop, List.getLast_concat, bne_iff_ne, ne_eq, not_not] at hlast
      rw [hdrop, hlast, List.append_assoc, List.singleton_append] at hsplit
      exact Or.inr ⟨above, hsplit.symm⟩

theorem ne_newline_of_mem_lead {before : List Char} {c : Char}
    (h : c ∈ before.rtakeWhile (· != '\n')) : (c != '\n') = true :=
  List.mem_rtakeWhile_imp (p := (· != '\n')) h

theorem count_lead (before : List Char) :
    (before.rtakeWhile (· != '\n')).count '\n' = 0 := by
  rw [List.count_eq_zero]
  intro hmem
  exact absurd (ne_newline_of_mem_lead hmem) (by decide)

/-- The line that a place stands on: what is before it up to the last line feed, and what is after
it up to the next. -/
theorem getElem?_splitOn (before rest : List Char) :
    ((before ++ rest).splitOn '\n')[before.count '\n']? =
      some (before.rtakeWhile (· != '\n') ++ rest.takeWhile (· != '\n')) := by
  have hlead : ((before.rtakeWhile (· != '\n') ++ rest).splitOn '\n')[0]? =
      some (before.rtakeWhile (· != '\n') ++ rest.takeWhile (· != '\n')) := by
    rw [getElem?_splitOn_zero, List.takeWhile_append_of_pos fun c => ne_newline_of_mem_lead]
  have hcount := count_lead before
  rcases line_start before with hstart | ⟨above, hstart⟩
  · rw [← hstart] at hcount hlead ⊢
    rw [hcount, hlead]
  · generalize before.rtakeWhile (· != '\n') = lead at hlead hcount hstart ⊢
    subst hstart
    rw [List.count_append, List.count_cons_self, hcount, List.append_assoc, List.cons_append,
      Nat.zero_add]
    have hline := getElem?_splitOn_newline above (lead ++ rest) 0
    rw [Nat.add_zero] at hline
    rw [hline, hlead]

/-- Trailing characters are dropped no further than to a text that has none of them. -/
theorem dropTrailing_append {p : Char → Bool} {text : List Char} (hne : text ≠ [])
    (h : ∀ c ∈ text, p c = false) (lead tail : List Char) :
    dropTrailing p (lead ++ (text ++ tail)) = lead ++ (text ++ dropTrailing p tail) := by
  obtain ⟨c, cs, hrev⟩ := List.exists_cons_of_ne_nil (List.reverse_ne_nil_iff.mpr hne)
  have hstop : (text.reverse ++ lead.reverse).dropWhile p = text.reverse ++ lead.reverse := by
    have hc : p c = false := h c (List.mem_reverse.mp (by rw [hrev]; exact List.mem_cons_self))
    rw [hrev, List.cons_append, List.dropWhile_cons_of_neg (by simp [hc])]
  rw [dropTrailing, dropTrailing, List.reverse_append, List.reverse_append, List.append_assoc,
    List.dropWhile_append, hstop]
  split
  · next hempty =>
    rw [List.isEmpty_iff.mp hempty]
    simp
  · simp

/-! ## Carets -/

/-- The characters of a line that stand above carets. -/
def aboveCarets (line carets : List Char) : List Char :=
  ((line.zip carets).filter fun p => p.2 == '^').map Prod.fst

/-- What is put in front of carets to keep them in place: tabs stay, and all else is blank. -/
def padding (lead : List Char) : List Char :=
  lead.map fun c => if c = '\t' then '\t' else ' '

theorem aboveCarets_replicate (line : List Char) (n : Nat) :
    aboveCarets line (List.replicate n '^') = line.take n := by
  induction line generalizing n with
  | nil => simp [aboveCarets]
  | cons c line ih =>
      cases n with
      | zero => simp [aboveCarets]
      | succ n => simpa [aboveCarets, List.replicate_succ] using ih n

theorem aboveCarets_padding (lead rest : List Char) (n : Nat) :
    aboveCarets (lead ++ rest) (padding lead ++ List.replicate n '^') = rest.take n := by
  induction lead with
  | nil => exact aboveCarets_replicate rest n
  | cons c lead ih =>
      have hblank : ((if c = '\t' then '\t' else ' ') == '^') = false := by split <;> decide
      rw [← ih, aboveCarets, padding, List.map_cons, List.cons_append, List.cons_append,
        List.zip_cons_cons, List.filter_cons_of_neg (by simp [hblank])]
      rfl

end Text

/-! ## Numbers written anew -/

namespace Scan

/-- A number without its leading zeros. The last digit stays. -/
def unpadded : List Char → List Char
  | '0' :: c :: cs => unpadded (c :: cs)
  | cs => cs

theorem value_unpadded (digits : List Char) :
    Nat.ofDigitChars 10 (unpadded digits) 0 = Nat.ofDigitChars 10 digits 0 := by
  fun_induction unpadded digits with
  | case1 c cs ih => exact ih
  | case2 cs => rfl

theorem unpadded_ne (digits : List Char) (c : Char) (cs : List Char) :
    unpadded digits ≠ '0' :: c :: cs := by
  fun_induction unpadded digits with
  | case1 d ds ih => exact ih
  | case2 ds hne => exact hne c cs

theorem unpadded_suffix (digits : List Char) : unpadded digits <:+ digits := by
  fun_induction unpadded digits with
  | case1 c cs ih => exact ih.trans (List.suffix_cons '0' _)
  | case2 cs => exact List.suffix_refl cs

theorem unpadded_ne_nil {digits : List Char} (h : digits ≠ []) : unpadded digits ≠ [] := by
  fun_induction unpadded digits with
  | case1 c cs ih => exact ih (List.cons_ne_nil c cs)
  | case2 cs => exact h

theorem unpadded_eq_self_iff {text : List Char} :
    unpadded text = text ↔ ¬ ∃ c cs, text = '0' :: c :: cs := by
  constructor
  · rintro heq ⟨c, cs, rfl⟩
    exact unpadded_ne _ c cs heq
  · intro hne
    rw [unpadded]
    exact fun c cs htext => hne ⟨c, cs, htext⟩

theorem digitChar_value {c : Char} (h : isDigit c = true) :
    c.toNat - '0'.toNat < 10 ∧ (c.toNat - '0'.toNat).digitChar = c := by
  have hascii : c.isDigit = true := h
  revert h
  exact Text.of_ascii (p := fun c => isDigit c = true →
    c.toNat - '0'.toNat < 10 ∧ (c.toNat - '0'.toNat).digitChar = c)
    (Text.toNat_lt_of_isDigit hascii) (by decide +kernel)

/-- A number without leading zeros is written as it is. -/
theorem toDigits_value {digits : List Char} (hn : IsNumeral digits)
    (hzero : ∀ c cs, digits ≠ '0' :: c :: cs) :
    Nat.toDigits 10 (Nat.ofDigitChars 10 digits 0) = digits := by
  induction digits using List.reverseRecOn with
  | nil => exact absurd rfl hn.1
  | append_singleton digits c ih =>
      obtain ⟨hlt, hchar⟩ := digitChar_value (hn.2 c (by simp))
      rw [Nat.ofDigitChars_append, Nat.ofDigitChars_cons, Nat.ofDigitChars_nil]
      by_cases hnil : digits = []
      · subst hnil
        rw [Nat.ofDigitChars_nil, Nat.mul_zero, Nat.zero_add, Nat.toDigits_of_lt_base hlt, hchar]
        rfl
      · have hrest := ih ⟨hnil, fun d hd => hn.2 d (List.mem_append_left _ hd)⟩
          fun d ds heq => hzero d (ds ++ [c]) (by rw [heq]; rfl)
        have hpos : 0 < Nat.ofDigitChars 10 digits 0 := by
          by_contra hnot
          rw [Nat.eq_zero_of_not_pos hnot] at hrest
          exact hzero c [] (by rw [← hrest]; rfl)
        generalize Nat.ofDigitChars 10 digits 0 = value at hrest hpos ⊢
        rw [Nat.toDigits_of_base_le (by decide) (by omega)]
        have hdiv : (10 * value + (c.toNat - '0'.toNat)) / 10 = value := by omega
        have hmod : (10 * value + (c.toNat - '0'.toNat)) % 10 = c.toNat - '0'.toNat := by omega
        rw [hdiv, hmod, hrest, hchar]

theorem IsNumeral.unpadded {digits : List Char} (h : IsNumeral digits) :
    IsNumeral (unpadded digits) :=
  ⟨unpadded_ne_nil h.1, fun c hc => h.2 c ((unpadded_suffix digits).subset hc)⟩

/-- The text of a token is the text in the source without leading zeros. -/
theorem Spells.text_eq {text : List Char} {t : Token} {found : String}
    (h : Spells text t.lexeme) (hfound : t.text? = some found) :
    found.toList = Scan.unpadded text := by
  obtain ⟨l, location⟩ := t
  cases h with
  | name hw _ =>
      have hself : Scan.unpadded text = text := by
        rw [unpadded_eq_self_iff]
        rintro ⟨c, cs, rfl⟩
        obtain ⟨⟨d, hd, hletter⟩, -⟩ := hw
        cases hd
        exact absurd hletter (by decide)
      rw [hself, ← Option.some.inj hfound]
      exact String.toList_ofList
  | number hn =>
      rw [eq_of_writeDecimal? hfound]
      have hvalue := toDigits_value hn.unpadded (unpadded_ne text)
      rw [value_unpadded] at hvalue
      rw [← hvalue, ← Nat.toList_repr]
      exact toList_toString_nat _
  | symbol s =>
      have hhead : s.spelling.toList.head? ≠ some '0' := by cases s <;> decide
      have hself : Scan.unpadded s.spelling.toList = s.spelling.toList := by
        rw [unpadded_eq_self_iff]
        rintro ⟨c, cs, hcs⟩
        rw [hcs] at hhead
        exact hhead rfl
      rw [hself, ← Option.some.inj hfound]

theorem Spells.not_isSpace {text : List Char} {l : Lexeme} (h : Spells text l) :
    ∀ c ∈ text, isSpace c = false := by
  cases h with
  | name hw _ => exact fun c hc => not_isSpace_of_isNamePart (hw.2 c hc)
  | number hn => exact fun c hc => not_isSpace_of_isNamePart (isNamePart_of_isDigit (hn.2 c hc))
  | symbol s =>
      have hall : (s.spelling.toList.all fun c => !isSpace c) = true := by cases s <;> decide
      intro c hc
      simpa using List.all_eq_true.mp hall c hc

/-- A token of a text stands where a text spells it, or it is the end. -/
theorem place_of_mem {source filename : String} {tokens : List Token} {t : Token}
    (h : tokensOf source filename = .ok tokens) (ht : t ∈ tokens) :
    t.location = locationAfter filename source.toList ∨
      ∃ before text after, source.toList = before ++ (text ++ after) ∧
        t.location = locationAfter filename before ∧ Spells text t.lexeme := by
  obtain ⟨segments, trail, hsource, -, hlaid, htokens⟩ :=
    scanFrom_laid filename [] rfl (parted_nil _) (fault_of_tokensOf h)
  have hscan : tokens = tokensIn filename trail [] segments :=
    (scan_of_tokensOf h).symm.trans htokens
  rw [hscan, tokensIn, List.nil_append, ← hsource] at ht
  rcases List.mem_append.mp ht with ht | ht
  · obtain ⟨s, hs, rfl⟩ := List.mem_map.mp ht
    obtain ⟨xs, ys, rfl⟩ := List.append_of_mem hs
    have hfits := (Laid.fits hlaid).cutFrom
    refine Or.inr ⟨charsOf xs ++ s.gap, s.text, charsOf ys ++ trail, ?_, hfits.place, hfits.spells⟩
    rw [hsource]
    simp [charsOf, Segment.chars]
  · rw [List.mem_singleton.mp ht]
    exact Or.inl rfl

end Scan

open Scan Text

/-! ## Reports about tokens -/

/-- The report of a failure that has one. -/
def reportOf? {α : Type} : Except Failure α → Option Diagnostic
  | .error (.report d) => some d
  | _ => none

theorem exists_report_of_any {α : Type} {r : Except Failure α} {check : Diagnostic → Bool}
    (h : (reportOf? r).any check = true) : ∃ d, r = .error (.report d) ∧ check d = true := by
  unfold reportOf? at h
  split at h
  · next d => exact ⟨d, rfl, h⟩
  · cases h

/-- An unexpected token is one of the tokens of the text. -/
theorem unexpected_of_report {source filename expected found : String} {tokens : List Token}
    {d : Diagnostic} (htokens : tokensOf source filename = .ok tokens)
    (h : parseSource source filename = .error (.report d))
    (hkind : d.category = .unexpected expected found) :
    ∃ t ∈ tokens, t.text? = some found ∧
      d = .unexpected expected found (some t.location)
        (lineAt? (sourceLines source) t.location.line) none none
        (if t.isEnd then 1 else found.length) := by
  have hread : readTokens tokens (sourceLines source) (·.parseProgram filename) =
      .error (.report d) := by
    simpa only [parseSource, htokens, bind, Except.bind] using h
  obtain ⟨ts, t, fault, blamed, _, hmem, hblames, hd, hf⟩ := readTokens_reports htokens hread
  cases hf
  cases hblames with
  | unexpected e =>
      obtain ⟨text, htext, rfl⟩ := Option.map_eq_some_iff.mp hd
      injection hkind with he hfound
      subst he hfound
      exact ⟨t, hmem, htext, rfl⟩
  | assignmentTarget _ _ _ _ _ =>
      obtain ⟨text, -, rfl⟩ := Option.map_eq_some_iff.mp hd
      cases hkind

/-- The line number of a place finds the line that the place is on, in whatever form the lines are
kept. -/
theorem lineAt?_place {source : String} {before after : List Char}
    (hsource : source.toList = before ++ after) (form : List Char → String) (filename : String) :
    lineAt? ((source.toList.splitOn '\n').map form) (locationAfter filename before).line =
      some (form (before.rtakeWhile (· != '\n') ++ after.takeWhile (· != '\n'))) := by
  have hindex : (locationAfter filename before).line.toNat - 1 = before.count '\n' := by
    simp only [locationAfter]
    omega
  rw [lineAt?, if_pos (by simp only [locationAfter]; omega), hindex, hsource, List.getElem?_map,
    getElem?_splitOn, Option.map_some]

/-- The line that a token stands on is quoted up to the carriage returns at its end. -/
theorem lineAt?_token {source : String} {before text after : List Char} {l : Lexeme}
    (hsource : source.toList = before ++ (text ++ after)) (hspells : Spells text l)
    (filename : String) :
    lineAt? (sourceLines source) (locationAfter filename before).line =
      some (String.ofList (before.rtakeWhile (· != '\n') ++
        (text ++ dropTrailing (· == '\r') (after.takeWhile (· != '\n'))))) := by
  have hplain := hspells.not_isSpace
  have hnewline : ∀ c ∈ text, (c != '\n') = true := by
    intro c hc
    rw [bne_iff_ne]
    rintro rfl
    exact absurd (hplain _ hc) (by decide)
  rw [sourceLines, lineAt?_place hsource, List.takeWhile_append_of_pos hnewline]
  have hreturn : ∀ c ∈ text, (c == '\r') = false := by
    intro c hc
    rw [beq_eq_false_iff_ne]
    rintro rfl
    exact absurd (hplain _ hc) (by decide)
  rw [dropTrailing_append hspells.ne_nil hreturn]

/-- Under a line the carets stand where the column says, as many as fit. -/
theorem caretLine_token (lead : List Char) {text : List Char} (rest : List Char) {width : Nat}
    (hpos : 0 < width) (hwidth : width ≤ text.length) :
    Diagnostic.caretLine (lead ++ (text ++ rest)) (1 + lead.length) width =
      padding lead ++ List.replicate width '^' := by
  have hcount : max 1 (min width ((lead ++ (text ++ rest)).length - lead.length)) = width := by
    simp only [List.length_append]
    omega
  rw [Diagnostic.caretLine, Nat.add_sub_cancel_left, List.take_left, hcount]
  rfl

theorem render_unexpected {place : Location} {lead text : List Char} (rest : List Char)
    {found : String} (hcolumn : place.column = (1 + lead.length : Nat)) (hpos : 0 < found.length)
    (hwidth : found.length ≤ text.length) (expected : String) :
    let d := Diagnostic.unexpected expected found (some place)
      (some (String.ofList (lead ++ (text ++ rest)))) none none found.length
    d.render = String.intercalate "\n" [d.headline,
      "    " ++ String.ofList (lead ++ (text ++ rest)),
      "    " ++ String.ofList (padding lead ++ List.replicate found.length '^')] := by
  intro d
  have hspan : d.span = found.length := by
    have hmax : max (found.length : Int) 1 = found.length := by omega
    simp only [d, Diagnostic.unexpected, Diagnostic.underlining, hmax, Int.toNat_natCast]
  have hexcerpt : d.excerpt = ["    " ++ String.ofList (lead ++ (text ++ rest)),
      "    " ++ String.ofList (padding lead ++ List.replicate found.length '^')] := by
    have hsource : d.sourceLine = some (String.ofList (lead ++ (text ++ rest))) := rfl
    have hplace : d.location = some place := rfl
    simp only [Diagnostic.excerpt, hsource, hplace, hcolumn, hspan, Int.toNat_natCast,
      String.toList_ofList, caretLine_token lead rest hpos hwidth]
    exact if_pos (by omega)
  have hhint : d.hintLine = [] := rfl
  rw [Diagnostic.render, hexcerpt, hhint, List.append_nil]

/-- The report about a token that could not stand where it does. It quotes the token without
leading zeros, and the line up to the carriage returns at its end. Below the line, tabs stay and all
else is blank up to the token, and there are as many carets as the quotation has characters. So what
is quoted and what is underlined is the text in the source, except for a number with leading
zeros. -/
theorem report_quotes_token {source filename expected found : String} {tokens : List Token}
    {d : Diagnostic} (htokens : tokensOf source filename = .ok tokens)
    (h : parseSource source filename = .error (.report d))
    (hkind : d.category = .unexpected expected found)
    (hend : d.location ≠ some (locationAfter filename source.toList)) :
    ∃ before text after lead rest,
      source.toList = before ++ (text ++ after) ∧
      lead = before.rtakeWhile (· != '\n') ∧
      rest = dropTrailing (· == '\r') (after.takeWhile (· != '\n')) ∧
      d.location = some (locationAfter filename before) ∧
      (∃ t ∈ tokens, t.location = locationAfter filename before ∧ Spells text t.lexeme) ∧
      found.toList = unpadded text ∧
      d.message = "expected " ++ expected ++ ", found '" ++ found ++ "'" ∧
      d.render = String.intercalate "\n" [d.headline,
        "    " ++ String.ofList (lead ++ (text ++ rest)),
        "    " ++ String.ofList (padding lead ++ List.replicate found.length '^')] ∧
      aboveCarets (lead ++ (text ++ rest)) (padding lead ++ List.replicate found.length '^') =
        text.take found.length ∧
      (found.toList = text ∧
          aboveCarets (lead ++ (text ++ rest))
            (padding lead ++ List.replicate found.length '^') = text ↔
        ¬ ∃ c cs, text = '0' :: c :: cs) := by
  obtain ⟨t, ht, htext, hd⟩ := unexpected_of_report htokens h hkind
  have hlocation : d.location = some t.location := by
    rw [hd]
    rfl
  rw [hlocation] at hend
  obtain ⟨before, text, after, hsource, hplace, hspells⟩ :=
    (place_of_mem htokens ht).resolve_left fun heq => hend (congrArg some heq)
  have hfound := hspells.text_eq htext
  have hlength : found.length = (unpadded text).length := by
    rw [← String.length_toList, hfound]
  have hpos : 0 < found.length := by
    rw [hlength]
    exact List.length_pos_iff.mpr (unpadded_ne_nil hspells.ne_nil)
  have hwidth : found.length ≤ text.length := by
    rw [hlength]
    exact (unpadded_suffix text).length_le
  have hline := lineAt?_token hsource hspells filename
  rw [← hplace] at hline
  have hcolumn : t.location.column =
      (1 + (before.rtakeWhile (· != '\n')).length : Nat) := by
    rw [hplace]
    rfl
  have habove := aboveCarets_padding (before.rtakeWhile (· != '\n'))
    (text ++ dropTrailing (· == '\r') (after.takeWhile (· != '\n'))) found.length
  rw [List.take_append_of_le_length hwidth] at habove
  rw [hline, hspells.not_isEnd, if_neg Bool.false_ne_true] at hd
  have hrender := render_unexpected (dropTrailing (· == '\r') (after.takeWhile (· != '\n')))
    hcolumn hpos hwidth expected
  rw [← hd] at hrender
  refine ⟨before, text, after, _, _, hsource, rfl, rfl, hlocation.trans (congrArg some hplace),
    ⟨t, ht, hplace, hspells⟩, hfound, hd ▸ rfl, hrender, habove, ?_⟩
  rw [habove, hfound, ← unpadded_eq_self_iff, and_iff_left_iff_imp]
  intro hself
  rw [hlength, hself, List.take_length]

/-- A tab, a comment with a wide character and a carriage return around a name that comes too
soon. -/
def missingSign : String := "x = 1;\r\n\ty /* é */ = x total;\r\n"

theorem report_quotes_token_missingSign :
    ∃ tokens d before text after lead rest, tokensOf missingSign = .ok tokens ∧
      parseSource missingSign = .error (.report d) ∧ d.category = .unexpected "';'" "total" ∧
      d.location ≠ some (locationAfter "<input>" missingSign.toList) ∧
      missingSign.toList = before ++ (text ++ after) ∧ text = "total".toList ∧
      d.location = some (locationAfter "<input>" before) ∧
      d.render = "<input>:2:16: error: expected ';', found 'total'\n" ++
        "    \ty /* é */ = x total;\n    \t              ^^^^^" ∧
      aboveCarets (lead ++ (text ++ rest)) (padding lead ++ List.replicate 5 '^') = text := by
  have hscan : ((tokensOf missingSign).toOption.any fun tokens => tokens.length == 10) = true := by
    decide +kernel
  have hreport : ((reportOf? (parseSource missingSign)).any fun d => decide
      (d.category = .unexpected "';'" "total" ∧ d.location = some ⟨"<input>", 2, 16, 23⟩ ∧
        d.render = "<input>:2:16: error: expected ';', found 'total'\n" ++
          "    \ty /* é */ = x total;\n    \t              ^^^^^")) = true := by
    decide +kernel
  obtain ⟨tokens, htokens, -⟩ := exists_ok_of_any hscan
  obtain ⟨d, hd, hcheck⟩ := exists_report_of_any hreport
  obtain ⟨hkind, hlocation, hrender⟩ := of_decide_eq_true hcheck
  have hend : d.location ≠ some (locationAfter "<input>" missingSign.toList) := by
    rw [hlocation]
    decide +kernel
  obtain ⟨before, text, after, lead, rest, hsource, -, -, hplace, -, -, -, -, -, hexact⟩ :=
    report_quotes_token htokens hd hkind hend
  have hrest : text ++ after = "total;\r\n".toList := by
    have hlength : before.length = 23 := by
      have hoffset := congrArg Location.offset (Option.some.inj (hplace.symm.trans hlocation))
      exact Int.ofNat.inj hoffset
    calc text ++ after
      _ = missingSign.toList.drop 23 := by rw [hsource, ← hlength, List.drop_left]
      _ = "total;\r\n".toList := by decide +kernel
  have hplain : ¬ ∃ c cs, text = '0' :: c :: cs := by
    rintro ⟨c, cs, rfl⟩
    have hhead : some '0' = "total;\r\n".toList.head? := congrArg List.head? hrest
    exact absurd hhead (by decide)
  obtain ⟨htext, habove⟩ := hexact.mpr hplain
  exact ⟨tokens, d, before, text, after, lead, rest, htokens, hd, hkind, hend, hsource,
    htext.symm, hplace, hrender, habove⟩

/-- A number with leading zeros is neither quoted nor underlined as it was written. -/
theorem leadingZeros_lost :
    ∃ tokens d, tokensOf "1 007;" = .ok tokens ∧
      (∃ t ∈ tokens, d.location = some t.location ∧ Spells "007".toList t.lexeme) ∧
      parseSource "1 007;" = .error (.report d) ∧ d.category = .unexpected "';'" "7" ∧
      d.span = 1 ∧
      d.render = "<input>:1:3: error: expected ';', found '7'\n    1 007;\n      ^" := by
  have hscan : ((tokensOf "1 007;").toOption.any fun tokens => decide
      (⟨.number 7, ⟨"<input>", 1, 3, 2⟩⟩ ∈ tokens)) = true := by
    decide +kernel
  have hreport : ((reportOf? (parseSource "1 007;")).any fun d => decide
      (d.category = .unexpected "';'" "7" ∧ d.location = some ⟨"<input>", 1, 3, 2⟩ ∧ d.span = 1 ∧
        d.render = "<input>:1:3: error: expected ';', found '7'\n    1 007;\n      ^")) = true := by
    decide +kernel
  obtain ⟨tokens, htokens, hmem⟩ := exists_ok_of_any hscan
  obtain ⟨d, hd, hcheck⟩ := exists_report_of_any hreport
  obtain ⟨hkind, hlocation, hspan, hrender⟩ := of_decide_eq_true hcheck
  have hspells : Spells "007".toList (.number 7) :=
    .number ⟨by decide, List.all_eq_true.mp (by decide)⟩
  exact ⟨tokens, d, htokens, ⟨_, of_decide_eq_true hmem, hlocation, hspells⟩, hd, hkind, hspan,
    hrender⟩

end StackLang
