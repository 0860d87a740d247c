import StackLang.Proofs.ListingText
import StackLang.Token.Scan

/-!
# Pieces of a text

What is cut from the left of a text: a blank, a comment, or the text of a token, which is never cut
too short.
-/

namespace StackLang

namespace Scan

/-! ## Gaps -/

def blanks : List Char :=
  [' ', '\t', '\n', '\r', '\x0c', '\x0b']

/-- A blank or a comment, with the text after it. A comment to the end of the line leaves the line
feed, and a block comment is closed where it first can be. -/
inductive Filler : List Char → List Char → Prop where
  | blank {c after} : c ∈ blanks → Filler [c] after
  | lineComment {body after} : '\n' ∉ body → (∀ c ∈ after.head?, c = '\n') →
      Filler ('/' :: '/' :: body) after
  | blockComment {body after} : ¬ ['*', '/'] <:+: body ++ ['*'] →
      Filler ('/' :: '*' :: (body ++ ['*', '/'])) after

/-- Blanks and comments one after the other, up to the text after them. -/
inductive Gap (after : List Char) : List Char → Prop where
  | nil : Gap after []
  | cons {filler gap} : Filler filler (gap ++ after) → Gap after gap → Gap after (filler ++ gap)

theorem isSpace_iff {c : Char} : isSpace c = true ↔ c ∈ blanks := by
  constructor
  · intro h
    have hc : c.toNat < 0x80 := by
      simp only [isSpace, Bool.or_eq_true, beq_iff_eq, Bool.and_eq_true, decide_eq_true_eq] at h
      rcases h with rfl | h
      · decide
      · omega
    revert h
    exact Text.of_ascii (p := fun c => isSpace c = true → c ∈ blanks) hc (by decide +kernel)
  · intro h
    simp only [blanks, List.mem_cons, List.not_mem_nil, or_false] at h
    rcases h with rfl | rfl | rfl | rfl | rfl | rfl <;> decide

theorem commentLength?_eq_some {cs : List Char} {n : Nat} (h : commentLength? cs = some n) :
    ∃ body after, cs = body ++ '*' :: '/' :: after ∧ n = body.length + 2 ∧
      ¬ ['*', '/'] <:+: body ++ ['*'] := by
  fun_induction commentLength? cs generalizing n with
  | case1 after =>
      cases h
      exact ⟨[], after, rfl, rfl, by decide⟩
  | case2 c cs hopen ih =>
      obtain ⟨m, hm, rfl⟩ := Option.map_eq_some_iff.mp h
      obtain ⟨body, after, rfl, rfl, hfirst⟩ := ih hm
      refine ⟨c :: body, after, rfl, by simp, ?_⟩
      rw [List.cons_append, List.infix_cons_iff]
      rintro (hhead | hlater)
      · cases body with
        | nil => simp at hhead
        | cons d body =>
            simp only [List.cons_append, List.cons_prefix_cons] at hhead
            obtain ⟨rfl, rfl, -⟩ := hhead
            exact hopen _ rfl rfl
      · exact hfirst hlater
  | case3 => cases h

/-- The longest run of characters of one class in front of a text, and what it leaves. -/
theorem split_run (p : Char → Bool) (cs : List Char) :
    cs.take (cs.takeWhile p).length = cs.takeWhile p ∧
      cs.drop (cs.takeWhile p).length = cs.dropWhile p ∧
      ∀ c ∈ (cs.dropWhile p).head?, p c = false := by
  refine ⟨(List.prefix_iff_eq_take.mp (List.takeWhile_prefix p)).symm, ?_, ?_⟩
  · nth_rewrite 2 [← List.takeWhile_append_dropWhile (p := p) (l := cs)]
    exact List.drop_left
  · intro c hc
    have hstop := List.head?_dropWhile_not p cs
    rw [Option.mem_def.mp hc] at hstop
    simpa using hstop

theorem numberPiece_ne_gap (digits : List Char) : numberPiece digits ≠ .gap := by
  unfold numberPiece
  split
  · simp
  · split <;> simp

theorem cutComparison_ne_gap (double single : Symbol) (cs : List Char) (n : Nat) :
    cutComparison double single cs ≠ (.gap, n) := by
  unfold cutComparison
  split <;> simp

/-- What is passed over without a token is a blank or a comment. -/
theorem filler_of_cut {c : Char} {cs : List Char} {n : Nat} (h : cut c cs = (.gap, n)) :
    Filler (c :: cs.take n) (cs.drop n) := by
  unfold cut at h
  by_cases hspace : isSpace c = true
  · simp only [hspace, if_true, Prod.mk.injEq, true_and] at h
    subst h
    exact .blank (isSpace_iff.mp hspace)
  by_cases hletter : isLetter c = true
  · simp [hspace, hletter] at h
  by_cases hdigit : isDigit c = true
  · simp [hspace, hletter, hdigit, numberPiece_ne_gap] at h
  simp only [hspace, hletter, hdigit, Bool.false_eq_true, if_false] at h
  split at h
  case h_1 rest =>
    simp only [Prod.mk.injEq, true_and] at h
    subst h
    obtain ⟨htake, hdrop, hstop⟩ := split_run (· != '\n') ('/' :: rest)
    rw [htake, hdrop, List.takeWhile_cons_of_pos (by decide)]
    refine .lineComment ?_ ?_
    · intro hmem
      exact absurd (List.mem_takeWhile_imp hmem) (by decide)
    · intro d hd
      simpa using hstop d hd
  case h_2 rest =>
    split at h
    case h_1 m hclosed =>
      simp only [Prod.mk.injEq, true_and] at h
      subst h
      obtain ⟨body, after, rfl, rfl, hfirst⟩ := commentLength?_eq_some hclosed
      have hsplit : '*' :: (body ++ '*' :: '/' :: after) =
          ('*' :: (body ++ ['*', '/'])) ++ after := by simp
      have hlen : body.length + 2 + 1 = ('*' :: (body ++ ['*', '/'])).length := by simp
      rw [hsplit, hlen, List.take_left, List.drop_left]
      exact .blockComment hfirst
    case h_2 => simp at h
  all_goals first
    | exact absurd h (cutComparison_ne_gap _ _ _ _)
    | simp [cutSymbol] at h

/-! ## Texts of tokens -/

/-- A letter, and letters and digits after it. -/
def IsWord (text : List Char) : Prop :=
  (∃ c ∈ text.head?, isLetter c = true) ∧ ∀ c ∈ text, isNamePart c = true

def IsNumeral (text : List Char) : Prop :=
  text ≠ [] ∧ ∀ c ∈ text, isDigit c = true

/-- What a text by itself says as a token. -/
inductive Spells : List Char → Lexeme → Prop where
  | name {text} : IsWord text → String.ofList text ∉ ["return", "if", "else", "while", "for"] →
      Spells text (.identifier (String.ofList text))
  | number {text} : IsNumeral text → Spells text (.number (Nat.ofDigitChars 10 text 0 : Nat))
  | symbol (s : Symbol) : Spells s.spelling.toList (.symbol s s.spelling)

/-- The text was not cut too short, given the text after it. -/
structure LongestCut (text after : List Char) (l : Lexeme) : Prop where
  spells : Spells text l
  word : IsWord text → ∀ c ∈ after.head?, isNamePart c = false
  numeral : IsNumeral text → ∀ c ∈ after.head?, isDigit c = false
  comparison : ∀ c ∈ ['=', '!', '<', '>'], text.head? = some c →
    text = if (text.tail ++ after).head? = some '=' then [c, '='] else [c]

theorem isNamePart_of_isLetter {c : Char} (h : isLetter c = true) : isNamePart c = true := by
  simp [isNamePart, h]

theorem isNamePart_of_isDigit {c : Char} (h : isDigit c = true) : isNamePart c = true := by
  simp [isNamePart, h]

theorem not_isDigit_of_isLetter {c : Char} (h : isLetter c = true) : isDigit c = false := by
  simp only [isLetter, isDigit, Bool.or_eq_true, Bool.and_eq_true, decide_eq_true_eq, beq_iff_eq,
    Bool.and_eq_false_iff, decide_eq_false_iff_not, Char.le_def, UInt32.le_iff_toNat_le] at h ⊢
  rcases h with (h | h) | rfl
  · right
    have : 'a'.val.toNat = 97 := rfl
    have : '9'.val.toNat = 57 := rfl
    omega
  · right
    have : 'A'.val.toNat = 65 := rfl
    have : '9'.val.toNat = 57 := rfl
    omega
  · right
    decide

theorem not_comparison_of_isNamePart {c : Char} (h : isNamePart c = true) :
    c ∉ ['=', '!', '<', '>'] := by
  intro hc
  simp only [List.mem_cons, List.not_mem_nil, or_false] at hc
  rcases hc with rfl | rfl | rfl | rfl <;> exact absurd h (by decide)

theorem IsNumeral.not_isWord {text : List Char} (h : IsNumeral text) : ¬ IsWord text := by
  rintro ⟨⟨c, hc, hletter⟩, -⟩
  have hdigit := h.2 c (List.mem_of_mem_head? hc)
  rw [not_isDigit_of_isLetter hletter] at hdigit
  cases hdigit

theorem decimalValue_eq {digits : List Char} (hd : ∀ c ∈ digits, isDigit c = true) :
    Text.decimalValue digits = Nat.ofDigitChars 10 digits 0 := by
  rw [Text.decimalValue, Nat.ofDigitChars_eq_foldl]
  refine List.foldl_ext _ _ _ fun m c hc => ?_
  have hascii : c.isDigit = true := hd c hc
  rw [Text.digit?_of_isDigit hascii]
  rfl

theorem numberPiece_lexeme {digits : List Char} {l : Lexeme} (hd : ∀ c ∈ digits, isDigit c = true)
    (h : numberPiece digits = .lexeme l) : l = .number (Nat.ofDigitChars 10 digits 0 : Nat) := by
  unfold numberPiece Text.readDecimal at h
  split at h
  · cases h
  · next value hread =>
    split at h
    · cases h
    · split at hread
      · cases hread
      · cases hread
        cases h
        rw [decimalValue_eq hd]

theorem keyword?_eq_none_iff {word : String} :
    Symbol.keyword? word = none ↔ word ∉ ["return", "if", "else", "while", "for"] := by
  have hspellings : Symbol.keywords.map Symbol.spelling =
      ["return", "if", "else", "while", "for"] := rfl
  rw [← hspellings, Symbol.keyword?, List.find?_eq_none]
  constructor
  · intro h hmem
    obtain ⟨s, hs, rfl⟩ := List.mem_map.mp hmem
    exact h s hs (beq_self_eq_true _)
  · intro h s hs hword
    exact h (List.mem_map.mpr ⟨s, hs, beq_iff_eq.mp hword⟩)

theorem wordLexeme_spells {text : List Char} (hw : IsWord text) :
    Spells text (wordLexeme (String.ofList text)) := by
  unfold wordLexeme
  cases hkey : Symbol.keyword? (String.ofList text) with
  | none => exact .name hw (keyword?_eq_none_iff.mp hkey)
  | some s =>
      have hspelling : s.spelling = String.ofList text := by
        simpa using List.find?_some hkey
      have htext : text = s.spelling.toList := by rw [hspelling, String.toList_ofList]
      rw [← hspelling]
      nth_rewrite 1 [htext]
      exact .symbol s

/-- A symbol that starts with neither a letter nor a digit can only be cut too short before `=`. -/
theorem longestCut_symbol {c : Char} {rest after : List Char} {s : Symbol}
    (hletter : ¬ isLetter c = true) (hdigit : ¬ isDigit c = true)
    (hs : s.spelling.toList = c :: rest)
    (hcomparison : c ∈ ['=', '!', '<', '>'] →
      c :: rest = if (rest ++ after).head? = some '=' then [c, '='] else [c]) :
    LongestCut (c :: rest) after (.symbol s s.spelling) where
  spells := hs ▸ .symbol s
  word := by
    rintro ⟨⟨d, hd, hd'⟩, -⟩
    obtain rfl : c = d := by simpa using hd
    exact absurd hd' hletter
  numeral := fun h => absurd (h.2 c List.mem_cons_self) hdigit
  comparison := by
    intro d hd hhead
    obtain rfl : c = d := by simpa using hhead
    exact hcomparison hd

theorem longestCut_cutSymbol {c : Char} {cs : List Char} {l : Lexeme} {n : Nat} {s : Symbol}
    (hletter : ¬ isLetter c = true) (hdigit : ¬ isDigit c = true) (hs : s.spelling.toList = [c])
    (hc : c ∉ ['=', '!', '<', '>']) (h : cutSymbol s = (.lexeme l, n)) :
    LongestCut (c :: cs.take n) (cs.drop n) l := by
  cases h
  exact longestCut_symbol hletter hdigit hs fun hmem => absurd hmem hc

theorem longestCut_cutComparison {c : Char} {cs : List Char} {l : Lexeme} {n : Nat}
    {double single : Symbol} (hletter : ¬ isLetter c = true) (hdigit : ¬ isDigit c = true)
    (hdouble : double.spelling.toList = [c, '=']) (hsingle : single.spelling.toList = [c])
    (h : cutComparison double single cs = (.lexeme l, n)) :
    LongestCut (c :: cs.take n) (cs.drop n) l := by
  unfold cutComparison at h
  split at h
  · cases h
    exact longestCut_symbol hletter hdigit hdouble fun _ => rfl
  · next hnot =>
    cases h
    refine longestCut_symbol hletter hdigit hsingle fun _ => ?_
    rw [if_neg]
    · rfl
    · intro hhead
      obtain ⟨after, rfl⟩ : ∃ after, cs = '=' :: after := by
        cases cs with
        | nil => simp at hhead
        | cons d after => exact ⟨after, by simpa using hhead⟩
      exact hnot after rfl

theorem isWord_run {c : Char} (h : isLetter c = true) (cs : List Char) :
    IsWord (c :: cs.takeWhile isNamePart) := by
  refine ⟨⟨c, rfl, h⟩, fun d hd => ?_⟩
  rcases List.mem_cons.mp hd with rfl | hd
  · exact isNamePart_of_isLetter h
  · exact List.mem_takeWhile_imp hd

theorem isNumeral_run {c : Char} (h : isDigit c = true) (cs : List Char) :
    IsNumeral (c :: cs.takeWhile isDigit) := by
  refine ⟨List.cons_ne_nil _ _, fun d hd => ?_⟩
  rcases List.mem_cons.mp hd with rfl | hd
  · exact h
  · exact List.mem_takeWhile_imp hd

/-- What is cut out as a token is the longest text that could be. -/
theorem longestCut_of_cut {c : Char} {cs : List Char} {l : Lexeme} {n : Nat}
    (h : cut c cs = (.lexeme l, n)) : LongestCut (c :: cs.take n) (cs.drop n) l := by
  unfold cut at h
  by_cases hspace : isSpace c = true
  · simp [hspace] at h
  by_cases hletter : isLetter c = true
  · simp only [hspace, hletter, Bool.false_eq_true, if_false, if_true, Prod.mk.injEq,
      Piece.lexeme.injEq] at h
    obtain ⟨rfl, rfl⟩ := h
    obtain ⟨htake, hdrop, hstop⟩ := split_run isNamePart cs
    rw [htake, hdrop]
    have hword := isWord_run hletter cs
    refine ⟨wordLexeme_spells hword, fun _ => hstop, fun hn => absurd hword hn.not_isWord, ?_⟩
    intro d hd hhead
    obtain rfl : c = d := by simpa using hhead
    exact absurd hd (not_comparison_of_isNamePart (isNamePart_of_isLetter hletter))
  by_cases hdigit : isDigit c = true
  · simp only [hspace, hletter, hdigit, Bool.false_eq_true, if_false, if_true,
      Prod.mk.injEq] at h
    obtain ⟨hpiece, rfl⟩ := h
    obtain ⟨htake, hdrop, hstop⟩ := split_run isDigit cs
    rw [htake, hdrop]
    have hnumeral := isNumeral_run hdigit cs
    have hspells := Spells.number hnumeral
    rw [← numberPiece_lexeme hnumeral.2 hpiece] at hspells
    refine ⟨hspells, fun hw => absurd hw hnumeral.not_isWord, fun _ => hstop, ?_⟩
    intro d hd hhead
    obtain rfl : c = d := by simpa using hhead
    exact absurd hd (not_comparison_of_isNamePart (isNamePart_of_isDigit hdigit))
  simp only [hspace, hletter, hdigit, Bool.false_eq_true, if_false] at h
  split at h
  case h_1 => simp at h
  case h_2 => split at h <;> simp at h
  case h_6 =>
    cases h
    exact longestCut_symbol hletter hdigit rfl fun _ => rfl
  all_goals first
    | exact longestCut_cutComparison hletter hdigit rfl rfl h
    | exact longestCut_cutSymbol hletter hdigit rfl (by decide) h
    | simp at h

end Scan

end StackLang
