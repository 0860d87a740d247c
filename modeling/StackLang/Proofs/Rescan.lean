import StackLang.Proofs.ListingOperand
import StackLang.Proofs.Tiling

/-!
# Texts put together from tokens

The converse of cutting a text into tokens. The texts of tokens, one after the other, are scanned
as these tokens, as long as none of them goes on into what follows it.
-/

namespace StackLang

namespace Scan

/-! ## Cuts -/

theorem not_isSpace_of_isNamePart {c : Char} (h : isNamePart c = true) : isSpace c = false := by
  rw [← Bool.not_eq_true, isSpace_iff]
  intro hc
  simp only [blanks, List.mem_cons, List.not_mem_nil, or_false] at hc
  rcases hc with rfl | rfl | rfl | rfl | rfl | rfl <;> exact absurd h (by decide)

theorem takeWhile_run {p : Char → Bool} {cs after : List Char} (h : ∀ c ∈ cs, p c = true)
    (hafter : ∀ c ∈ after.head?, p c = false) : (cs ++ after).takeWhile p = cs := by
  rw [List.takeWhile_append_of_pos h]
  cases after with
  | nil => simp
  | cons c after => simp [hafter c rfl]

theorem cut_word {text after : List Char} (hw : IsWord text)
    (hafter : ∀ c ∈ after.head?, isNamePart c = false) :
    ∃ c tail, text = c :: tail ∧
      cut c (tail ++ after) = (.lexeme (wordLexeme (String.ofList text)), tail.length) := by
  obtain ⟨⟨c, hc, hletter⟩, hall⟩ := hw
  obtain ⟨tail, rfl⟩ := List.head?_eq_some_iff.mp hc
  have hspace := not_isSpace_of_isNamePart (isNamePart_of_isLetter hletter)
  have htail := takeWhile_run (fun d hd => hall d (List.mem_cons_of_mem c hd)) hafter
  exact ⟨c, tail, rfl, by simp [cut, hspace, hletter, htail]⟩

theorem cut_numeral {text after : List Char} (hn : IsNumeral text)
    (hafter : ∀ c ∈ after.head?, isDigit c = false) :
    ∃ c tail, text = c :: tail ∧ cut c (tail ++ after) = (numberPiece text, tail.length) := by
  obtain ⟨c, tail, rfl⟩ := List.exists_cons_of_ne_nil hn.1
  have hdigit := hn.2 c List.mem_cons_self
  have hspace := not_isSpace_of_isNamePart (isNamePart_of_isDigit hdigit)
  have hletter : isLetter c = false := by
    rw [← Bool.not_eq_true]
    intro hletter
    rw [not_isDigit_of_isLetter hletter] at hdigit
    cases hdigit
  have htail := takeWhile_run (fun d hd => hn.2 d (List.mem_cons_of_mem c hd)) hafter
  exact ⟨c, tail, rfl, by simp [cut, hspace, hletter, hdigit, htail]⟩

theorem cutComparison_single {double single : Symbol} {after : List Char}
    (h : after.head? ≠ some '=') :
    cutComparison double single after = (.lexeme (.symbol single single.spelling), 0) := by
  unfold cutComparison
  split
  · exact absurd rfl h
  · rfl

theorem cut_slash {after : List Char} (h : ∀ c ∈ after.head?, c ≠ '/' ∧ c ≠ '*') :
    cut '/' after = cutSymbol .slash := by
  cases after with
  | nil => rfl
  | cons c after =>
      obtain ⟨hslash, hstar⟩ := h c rfl
      simp [cut, hslash, hstar, isSpace, isLetter, isDigit]

theorem LongestCut.not_before_eq {c : Char} {after : List Char} {l : Lexeme}
    (h : LongestCut [c] after l) (hc : c ∈ ['=', '!', '<', '>']) : after.head? ≠ some '=' := by
  intro hhead
  have hlong := h.comparison c hc rfl
  simp [hhead] at hlong

/-- A text by itself is cut out again, unless it is a number out of range or starts a comment. -/
theorem cut_of_longestCut {text after : List Char} {l : Lexeme} (h : LongestCut text after l)
    (hnumber : IsNumeral text → numberPiece text = .lexeme l)
    (hslash : text = ['/'] → ∀ c ∈ after.head?, c ≠ '/' ∧ c ≠ '*') :
    ∃ c tail, text = c :: tail ∧ cut c (tail ++ after) = (.lexeme l, tail.length) := by
  have hword : IsWord text → wordLexeme (String.ofList text) = l →
      ∃ c tail, text = c :: tail ∧ cut c (tail ++ after) = (.lexeme l, tail.length) := by
    rintro hw rfl
    exact cut_word hw (h.word hw)
  cases h.spells with
  | name hw hkey =>
      refine hword hw ?_
      rw [wordLexeme, keyword?_eq_none_iff.mpr hkey]
  | number hn =>
      rw [← hnumber hn]
      exact cut_numeral hn (h.numeral hn)
  | symbol s =>
      cases s
      case return_ | if_ | else_ | while_ | for_ =>
        exact hword ⟨⟨_, rfl, by decide⟩, List.all_eq_true.mp (by decide)⟩ rfl
      case slash => exact ⟨_, _, rfl, cut_slash (hslash rfl)⟩
      case lt =>
        exact ⟨_, _, rfl, cutComparison_single (LongestCut.not_before_eq (c := '<') h (by decide))⟩
      case gt =>
        exact ⟨_, _, rfl, cutComparison_single (LongestCut.not_before_eq (c := '>') h (by decide))⟩
      case assign =>
        exact ⟨_, _, rfl, cutComparison_single (LongestCut.not_before_eq (c := '=') h (by decide))⟩
      all_goals exact ⟨_, _, rfl, rfl⟩

theorem commentLength?_cons {c : Char} {cs : List Char} (h : ¬ ['*', '/'] <+: c :: cs) :
    commentLength? (c :: cs) = (commentLength? cs).map (· + 1) := by
  rw [commentLength?]
  rintro after rfl rfl
  exact h ⟨after, rfl⟩

theorem commentLength?_append {body : List Char} (h : ¬ ['*', '/'] <:+: body ++ ['*'])
    (after : List Char) :
    commentLength? (body ++ '*' :: '/' :: after) = some (body.length + 2) := by
  induction body with
  | nil => rfl
  | cons c body ih =>
      rw [List.cons_append, List.infix_cons_iff, not_or] at h
      have hopen : ¬ ['*', '/'] <+: c :: (body ++ '*' :: '/' :: after) := by
        intro hclosed
        refine h.1 ?_
        cases body with
        | nil => simp at hclosed
        | cons d body => simpa using hclosed
      rw [List.cons_append, commentLength?_cons hopen, ih h.2]
      rfl

theorem cut_blockComment (cs : List Char) :
    cut '/' ('*' :: cs) =
      match commentLength? cs with
      | some n => (.gap, n + 1)
      | none => (.fault .unterminatedComment, 0) :=
  rfl

/-- A blank or a comment is passed over as a whole. -/
theorem cut_of_filler {filler after : List Char} (h : Filler filler after) :
    ∃ c tail, filler = c :: tail ∧ cut c (tail ++ after) = (.gap, tail.length) := by
  cases h with
  | @blank c _ hc => exact ⟨c, [], rfl, by simp [cut, isSpace_iff.mpr hc]⟩
  | @lineComment body _ hbody hafter =>
      refine ⟨'/', '/' :: body, rfl, ?_⟩
      have hrun : ('/' :: body ++ after).takeWhile (· != '\n') = '/' :: body := by
        refine takeWhile_run (fun c hc => ?_) (fun c hc => ?_)
        · rcases List.mem_cons.mp hc with rfl | hc
          · decide
          · exact bne_iff_ne.mpr fun heq => hbody (heq ▸ hc)
        · rw [hafter c hc]
          decide
      have hcut : cut '/' ('/' :: body ++ after) =
          (.gap, (('/' :: body ++ after).takeWhile (· != '\n')).length) := rfl
      rw [hcut, hrun]
  | @blockComment body _ hbody =>
      refine ⟨'/', '*' :: (body ++ ['*', '/']), rfl, ?_⟩
      have htail : '*' :: (body ++ ['*', '/']) ++ after =
          '*' :: (body ++ '*' :: '/' :: after) := by simp
      rw [htail, cut_blockComment, commentLength?_append hbody after]
      simp

/-! ## Scans -/

theorem scanFrom_gap {c : Char} {tail after : List Char}
    (h : cut c (tail ++ after) = (.gap, tail.length)) (filename : String) (mark : Mark) :
    scanFrom filename mark (c :: (tail ++ after)) =
      scanFrom filename (mark.advance (c :: tail)) after := by
  rw [scanFrom, h]
  simp only [List.take_left, List.drop_left]

theorem scanFrom_lexeme {c : Char} {tail after : List Char} {l : Lexeme}
    (h : cut c (tail ++ after) = (.lexeme l, tail.length)) (filename : String) (mark : Mark) :
    scanFrom filename mark (c :: (tail ++ after)) =
      push ⟨l, mark.location filename⟩ (scanFrom filename (mark.advance (c :: tail)) after) := by
  rw [scanFrom, h]
  simp only [List.take_left, List.drop_left]

/-- In front of `after`, the characters are scanned as the lexemes. -/
def Scans (cs : List Char) (ls : List Lexeme) (after : List Char) : Prop :=
  ∀ filename mark, ∃ ts : List Token, ts.map Token.lexeme = ls ∧
    scanFrom filename mark (cs ++ after) =
      ⟨ts ++ (scanFrom filename (mark.advance cs) after).tokens,
        (scanFrom filename (mark.advance cs) after).fault⟩

theorem Scans.append {cs ds after : List Char} {ls ms : List Lexeme}
    (hcs : Scans cs ls (ds ++ after)) (hds : Scans ds ms after) :
    Scans (cs ++ ds) (ls ++ ms) after := by
  intro filename mark
  obtain ⟨ts, hts, hscan⟩ := hcs filename mark
  obtain ⟨us, hus, hrest⟩ := hds filename (mark.advance cs)
  refine ⟨ts ++ us, by rw [List.map_append, hts, hus], ?_⟩
  rw [List.append_assoc, hscan, hrest, advance_append, List.append_assoc]

theorem Scans.filler {filler after : List Char} (h : Filler filler after) :
    Scans filler [] after := by
  intro filename mark
  obtain ⟨c, tail, rfl, hcut⟩ := cut_of_filler h
  exact ⟨[], rfl, scanFrom_gap hcut filename mark⟩

theorem Scans.blank {c : Char} (hc : isSpace c = true) (after : List Char) :
    Scans [c] [] after :=
  .filler (.blank (isSpace_iff.mp hc))

theorem Scans.of_cut {c : Char} {tail after : List Char} {l : Lexeme}
    (h : cut c (tail ++ after) = (.lexeme l, tail.length)) : Scans (c :: tail) [l] after := by
  intro filename mark
  exact ⟨[⟨l, mark.location filename⟩], rfl, scanFrom_lexeme h filename mark⟩

theorem Scans.token {text after : List Char} {l : Lexeme} (h : LongestCut text after l)
    (hnumber : IsNumeral text → numberPiece text = .lexeme l)
    (hslash : text = ['/'] → ∀ c ∈ after.head?, c ≠ '/' ∧ c ≠ '*') :
    Scans text [l] after := by
  obtain ⟨c, tail, rfl, hcut⟩ := cut_of_longestCut h hnumber hslash
  exact .of_cut hcut

/-- A name or a number ends where no letter or digit follows. -/
theorem Scans.nameParts {text after : List Char} {l : Lexeme} (hspells : Spells text l)
    (hall : ∀ c ∈ text, isNamePart c = true)
    (hnumber : IsNumeral text → numberPiece text = .lexeme l)
    (hafter : ∀ c ∈ after.head?, isNamePart c = false) : Scans text [l] after := by
  have hcut : LongestCut text after l := by
    refine ⟨hspells, fun _ => hafter, fun _ c hc => ?_, fun c hc hhead => ?_⟩
    · have hc := hafter c hc
      simp only [isNamePart, Bool.or_eq_false_iff] at hc
      exact hc.2
    · have hpart := hall c (List.mem_of_mem_head? hhead)
      exact absurd hc (not_comparison_of_isNamePart hpart)
  refine .token hcut hnumber fun htext => ?_
  have hpart := hall '/' (by simp [htext])
  exact absurd hpart (by decide)

/-- A word that is no keyword. -/
def IsName (name : String) : Prop :=
  IsWord name.toList ∧ name ∉ ["return", "if", "else", "while", "for"]

theorem Scans.name {name : String} (h : IsName name) {after : List Char}
    (hafter : ∀ c ∈ after.head?, isNamePart c = false) :
    Scans name.toList [.identifier name] after := by
  have hspells := Spells.name h.1 (by rw [String.ofList_toList]; exact h.2)
  rw [String.ofList_toList] at hspells
  exact .nameParts hspells h.1.2 (fun hn => absurd h.1 hn.not_isWord) hafter

theorem isNumeral_repr (n : Nat) : IsNumeral n.repr.toList :=
  ⟨repr_ne_nil n, fun _ hc => Text.ascii_of_mem_repr hc⟩

theorem numberPiece_repr {n : Nat} (h : n ≤ largestLiteral) :
    numberPiece n.repr.toList = .lexeme (.number n) := by
  have hfew : FewDigits n := fewDigits_of_lt (by rw [largestLiteral] at h; omega)
  have hlength : ¬ Text.digitLimit < n.repr.toList.length := by
    rw [String.length_toList]
    exact Nat.not_lt.mpr hfew
  rw [numberPiece, Text.readDecimal, if_neg hlength, Text.decimalValue_repr]
  exact if_neg (Nat.not_lt.mpr h)

theorem Scans.number {value : Int} (h : IsLiteral value) {after : List Char}
    (hafter : ∀ c ∈ after.head?, isNamePart c = false) :
    Scans (toString value).toList [.number value] after := by
  obtain ⟨n, rfl⟩ := Int.eq_ofNat_of_zero_le h.1
  have hn := isNumeral_repr n
  have hpiece := numberPiece_repr (Int.ofNat_le.mp h.2)
  have hspells := Spells.number hn
  rw [← numberPiece_lexeme hn.2 hpiece] at hspells
  exact .nameParts hspells (fun c hc => isNamePart_of_isDigit (hn.2 c hc)) (fun _ => hpiece) hafter

/-- Before a blank, a symbol is complete. -/
theorem Scans.symbol (s : Symbol) {after : List Char} (hafter : ∀ c ∈ after.head?, c ∈ blanks) :
    Scans s.spelling.toList [.symbol s s.spelling] after := by
  have hplain : ∀ c ∈ after.head?, isNamePart c = false ∧ isDigit c = false ∧
      c ≠ '=' ∧ c ≠ '/' ∧ c ≠ '*' := by
    intro c hc
    have hblank := hafter c hc
    simp only [blanks, List.mem_cons, List.not_mem_nil, or_false] at hblank
    rcases hblank with rfl | rfl | rfl | rfl | rfl | rfl <;> decide
  have hnot : after.head? ≠ some '=' := fun hhead => (hplain '=' hhead).2.2.1 rfl
  refine .token ⟨.symbol s, fun _ c hc => (hplain c hc).1, fun _ c hc => (hplain c hc).2.1, ?_⟩
    ?_ fun _ c hc => (hplain c hc).2.2.2
  · intro c hc hhead
    cases s
    case eq | ne | le | ge =>
      cases hhead
      rfl
    case assign | lt | gt =>
      cases hhead
      exact (if_neg hnot).symm
    all_goals
      cases hhead
      exact absurd hc (by decide)
  · intro hn
    cases s <;> exact absurd (hn.2 _ List.mem_cons_self) (by decide)

/-- The tokens of a text that was put together. -/
theorem Scans.tokensOf {cs : List Char} {ls : List Lexeme} (h : Scans cs ls [])
    (filename : String) :
    ∃ ts last, ts.map Token.lexeme = ls ∧ last.isEnd = true ∧
      StackLang.tokensOf (String.ofList cs) filename = .ok (ts ++ [last]) := by
  obtain ⟨ts, hts, hscan⟩ := h filename {}
  rw [List.append_nil] at hscan
  refine ⟨ts, ⟨.endOfInput, (({} : Mark).advance cs).location filename⟩, hts, rfl, ?_⟩
  simp only [StackLang.tokensOf, scan, String.toList_ofList, hscan, scanFrom]

end Scan

end StackLang
