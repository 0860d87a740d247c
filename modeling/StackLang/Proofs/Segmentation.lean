import StackLang.Proofs.Rescan

/-!
# Where a text cannot be cut

A text is segmented from the left: at each place a blank, a whole comment or the longest token is
taken. Scanning stops exactly where the segmentation comes to something that can be none of these,
and the tokens before that place are those of the text up to it.
-/

namespace StackLang

namespace Scan

/-! ## Pieces -/

/-- The text is the longest one in front of `after` that says something as a token. -/
structure LongestToken (text after : List Char) (l : Lexeme) : Prop where
  spells : Spells text l
  longest : ∀ other m, Spells other m → other <+: text ++ after → other.length ≤ text.length

def OpensComment (cs : List Char) : Prop :=
  ['/', '/'] <+: cs ∨ ['/', '*'] <+: cs

/-- What is taken from the left of a text: a blank or a comment, or else the longest token, which is
no number above the largest signed word. -/
inductive Takes : List Char → List Char → Option Lexeme → Prop where
  | filler {piece after} : Filler piece after → Takes piece after none
  | token {piece after l} : ¬ OpensComment (piece ++ after) → LongestToken piece after l →
      (∀ value, l = .number value → value ≤ 2 ^ 63 - 1) → Takes piece after (some l)

/-- What stands where nothing can be taken, and the kind of report that it gives rise to. -/
inductive Obstacle : List Char → Category → Prop where
  | comment {body} : ¬ ['*', '/'] <:+: body → Obstacle ('/' :: '*' :: body) .lexical
  | literal {digits after} : IsNumeral digits → (∀ c ∈ after.head?, isDigit c = false) →
      2 ^ 63 - 1 < Nat.ofDigitChars 10 digits 0 → Obstacle (digits ++ after) .lexical
  | bang {after} : after.head? ≠ some '=' → Obstacle ('!' :: after) (.invalidCharacter "!")
  | character {c after} : c ∉ blanks → (∀ text l, Spells text l → text.head? ≠ some c) →
      Obstacle (c :: after) (.invalidCharacter (String.singleton c))

/-- The forms of the texts of tokens. -/
theorem Spells.forms {text : List Char} {l : Lexeme} (h : Spells text l) :
    IsWord text ∨ IsNumeral text ∨ (∃ c, text = [c]) ∨
      ∃ c ∈ ['=', '!', '<', '>'], text = [c, '='] := by
  cases h with
  | name hw _ => exact Or.inl hw
  | number hn => exact Or.inr (Or.inl hn)
  | symbol s =>
      cases s
      case return_ | if_ | else_ | while_ | for_ =>
        exact Or.inl ⟨⟨_, rfl, by decide⟩, List.all_eq_true.mp (by decide)⟩
      case eq | ne | le | ge => exact Or.inr (Or.inr (Or.inr ⟨_, by decide, rfl⟩))
      all_goals exact Or.inr (Or.inr (Or.inl ⟨_, rfl⟩))

theorem LongestCut.longestToken {text after : List Char} {l : Lexeme}
    (h : LongestCut text after l) : LongestToken text after l := by
  refine ⟨h.spells, fun other m hother hfront => ?_⟩
  by_contra hlonger
  obtain ⟨more, rfl⟩ := List.prefix_of_prefix_length_le (List.prefix_append text after) hfront
    (by omega)
  obtain ⟨d, more, rfl⟩ := List.exists_cons_of_ne_nil (l := more) (by rintro rfl; simp at hlonger)
  have hd : d ∈ after.head? := by
    obtain ⟨rest, rfl⟩ := (List.prefix_append_right_inj text).mp hfront
    rfl
  obtain ⟨c, tail, rfl⟩ := List.exists_cons_of_ne_nil h.spells.ne_nil
  rcases hother.forms with hw | hn | ⟨e, he⟩ | ⟨e, hmem, he⟩
  · have hword : IsWord (c :: tail) :=
      ⟨hw.1, fun x hx => hw.2 x (List.mem_append_left _ hx)⟩
    have hpart := hw.2 d (by simp)
    rw [h.word hword d hd] at hpart
    cases hpart
  · have hnumeral : IsNumeral (c :: tail) :=
      ⟨List.cons_ne_nil c tail, fun x hx => hn.2 x (List.mem_append_left _ hx)⟩
    have hdigit := hn.2 d (by simp)
    rw [h.numeral hnumeral d hd] at hdigit
    cases hdigit
  · simp at he
  · obtain ⟨rfl, rfl, rfl, -⟩ : c = e ∧ tail = [] ∧ d = '=' ∧ more = [] := by
      cases tail with
      | nil => simpa using he
      | cons x tail => simp at he
    have hlong := h.comparison c hmem rfl
    rw [List.tail_cons, List.nil_append, Option.mem_def.mp hd, if_pos rfl] at hlong
    simp at hlong

theorem LongestToken.longestCut {text after : List Char} {l : Lexeme}
    (h : LongestToken text after l) : LongestCut text after l := by
  have hstop : ∀ d ∈ after.head?, ∀ m, ¬ Spells (text ++ [d]) m := by
    intro d hd m hm
    obtain ⟨rest, rfl⟩ := List.head?_eq_some_iff.mp hd
    have hlength := h.longest _ m hm ⟨rest, by simp⟩
    simp at hlength
  refine ⟨h.spells, fun hw d hd => ?_, fun hn d hd => ?_, fun c hc hhead => ?_⟩
  · by_contra hpart
    refine hstop d hd _ (wordLexeme_spells ⟨?_, fun x hx => ?_⟩)
    · obtain ⟨⟨c, hc, hletter⟩, -⟩ := hw
      obtain ⟨tail, rfl⟩ := List.head?_eq_some_iff.mp hc
      exact ⟨c, rfl, hletter⟩
    · rcases List.mem_append.mp hx with hx | hx
      · exact hw.2 x hx
      · rw [List.mem_singleton.mp hx]
        simpa using hpart
  · by_contra hdigit
    refine hstop d hd _ (.number ⟨by simp, fun x hx => ?_⟩)
    rcases List.mem_append.mp hx with hx | hx
    · exact hn.2 x hx
    · rw [List.mem_singleton.mp hx]
      simpa using hdigit
  · obtain ⟨tail, rfl⟩ := List.head?_eq_some_iff.mp hhead
    rcases h.spells.forms with hw | hn | ⟨e, he⟩ | ⟨e, hmem, he⟩
    · exact absurd hc (not_comparison_of_isNamePart (hw.2 c List.mem_cons_self))
    · exact absurd hc
        (not_comparison_of_isNamePart (isNamePart_of_isDigit (hn.2 c List.mem_cons_self)))
    · obtain ⟨rfl, rfl⟩ : c = e ∧ tail = [] := by simpa using he
      rw [if_neg]
      intro hnext
      obtain ⟨s, hs⟩ : ∃ s : Symbol, s.spelling.toList = [c, '='] := by
        simp only [List.mem_cons, List.not_mem_nil, or_false] at hc
        rcases hc with rfl | rfl | rfl | rfl
        · exact ⟨.eq, rfl⟩
        · exact ⟨.ne, rfl⟩
        · exact ⟨.le, rfl⟩
        · exact ⟨.ge, rfl⟩
      have hspells := Spells.symbol s
      rw [hs] at hspells
      exact hstop '=' hnext _ hspells
    · obtain ⟨rfl, rfl⟩ : c = e ∧ tail = ['='] := by simpa using he
      rfl

/-! ## Cuts -/

/-- No run of digits in the text is too long to be read. -/
def ShortRuns (cs : List Char) : Prop :=
  ∀ run, IsNumeral run → run <:+: cs → run.length ≤ 4300

theorem ShortRuns.mono {cs ds : List Char} (h : ShortRuns cs) (hds : ds <:+: cs) : ShortRuns ds :=
  fun run hrun hin => h run hrun (hin.trans hds)

theorem numberPiece_eq {digits : List Char} (hn : IsNumeral digits) (hlen : digits.length ≤ 4300) :
    numberPiece digits =
      if 2 ^ 63 - 1 < Nat.ofDigitChars 10 digits 0 then
        .fault (.literalRange (String.ofList digits))
      else .lexeme (.number (Nat.ofDigitChars 10 digits 0 : Nat)) := by
  have hread : ¬ Text.digitLimit < digits.length := Nat.not_lt.mpr hlen
  rw [numberPiece, Text.readDecimal, if_neg hread, decimalValue_eq hn.2]
  rfl

theorem commentLength?_eq_none {cs : List Char} :
    commentLength? cs = none ↔ ¬ ['*', '/'] <:+: cs := by
  induction cs with
  | nil => simp [commentLength?]
  | cons c cs ih =>
      by_cases hclosed : ['*', '/'] <+: c :: cs
      · obtain ⟨after, hafter⟩ := hclosed
        rw [← hafter]
        simp [commentLength?, List.infix_cons_iff]
      · rw [commentLength?_cons hclosed, Option.map_eq_none_iff, ih, List.infix_cons_iff, not_or]
        exact (and_iff_right hclosed).symm

theorem Spells.number_of_isNumeral {text : List Char} {l : Lexeme} (h : Spells text l)
    (hn : IsNumeral text) : l = .number (Nat.ofDigitChars 10 text 0 : Nat) := by
  cases h with
  | name hw _ => exact absurd hw hn.not_isWord
  | number _ => rfl
  | symbol s => cases s <;> exact absurd (hn.2 _ List.mem_cons_self) (by decide)

/-- What is taken is what is cut. -/
theorem cut_of_takes {piece after : List Char} {l : Option Lexeme} (h : Takes piece after l)
    (hshort : ∀ value, l = some (.number value) → piece.length ≤ 4300) :
    ∃ c tail, piece = c :: tail ∧
      cut c (tail ++ after) = (l.elim .gap .lexeme, tail.length) := by
  cases h with
  | filler hfiller => exact cut_of_filler hfiller
  | token hcomment hlongest hrange =>
      refine cut_of_longestCut hlongest.longestCut (fun hn => ?_) ?_
      · have hl := hlongest.spells.number_of_isNumeral hn
        rw [numberPiece_eq hn (hshort _ (congrArg some hl)), if_neg, hl]
        have hle := hrange _ hl
        omega
      · rintro rfl c hc
        obtain ⟨rest, rfl⟩ := List.head?_eq_some_iff.mp hc
        constructor
        · rintro rfl
          exact hcomment (Or.inl ⟨rest, rfl⟩)
        · rintro rfl
          exact hcomment (Or.inr ⟨rest, rfl⟩)

theorem not_opensComment_of_cut {c : Char} {cs : List Char} {l : Lexeme} {n : Nat}
    (h : cut c cs = (.lexeme l, n)) : ¬ OpensComment (c :: cs) := by
  rintro (⟨rest, hrest⟩ | ⟨rest, hrest⟩)
  · cases hrest
    cases h
  · obtain ⟨rfl, rfl⟩ : '/' = c ∧ '*' :: rest = cs := by simpa using hrest
    rw [cut_blockComment] at h
    split at h <;> cases h

theorem takes_of_cut {c : Char} {cs : List Char} {l : Lexeme} {n : Nat}
    (h : cut c cs = (.lexeme l, n)) : Takes (c :: cs.take n) (cs.drop n) (some l) := by
  refine .token ?_ (longestCut_of_cut h).longestToken ?_
  · rw [List.cons_append, List.take_append_drop]
    exact not_opensComment_of_cut h
  · rintro value rfl
    have hliteral := (cut_literal (congrArg Prod.fst h)).2
    rw [largestLiteral] at hliteral
    omega

theorem cutComparison_ne_fault (double single : Symbol) (cs : List Char) (cause : Cause) (n : Nat) :
    cutComparison double single cs ≠ (.fault cause, n) := by
  unfold cutComparison
  split <;> simp

/-- The characters that tokens start with. -/
theorem Spells.starts {text : List Char} {l : Lexeme} {c : Char} (h : Spells text l)
    (hc : text.head? = some c) :
    isLetter c = true ∨ isDigit c = true ∨
      c ∈ ['=', '<', '>', '!', '+', '-', '*', '/', '(', ')', '\x7b', '\x7d', ';'] := by
  cases h with
  | name hw _ =>
      obtain ⟨⟨d, hd, hletter⟩, -⟩ := hw
      obtain rfl : c = d := Option.some.inj (hc.symm.trans hd)
      exact Or.inl hletter
  | number hn => exact Or.inr (Or.inl (hn.2 c (List.mem_of_mem_head? hc)))
  | symbol s =>
      cases s
      case return_ | if_ | else_ | while_ | for_ =>
        cases hc
        exact Or.inl (by decide)
      all_goals
        cases hc
        exact Or.inr (Or.inr (by decide))

/-- The kind of report that a cause gives rise to, if it has one. -/
def Cause.category? : Cause → Option Category
  | .unterminatedComment | .literalRange _ => some .lexical
  | .tooManyDigits _ => none
  | .loneBang => some (.invalidCharacter "!")
  | .invalidCharacter c => some (.invalidCharacter (String.singleton c))

theorem obstacle_of_cut {c : Char} {cs : List Char} {cause : Cause} {n : Nat}
    (hshort : ShortRuns (c :: cs)) (h : cut c cs = (.fault cause, n)) :
    ∃ category, cause.category? = some category ∧ Obstacle (c :: cs) category := by
  unfold cut at h
  by_cases hspace : isSpace c = true
  · simp [hspace] at h
  by_cases hletter : isLetter c = true
  · simp [hspace, hletter] at h
  by_cases hdigit : isDigit c = true
  · simp only [hspace, hletter, hdigit, Bool.false_eq_true, if_false, if_true,
      Prod.mk.injEq] at h
    obtain ⟨htake, hdrop, hstop⟩ := split_run isDigit cs
    have hn := isNumeral_run hdigit cs
    have hsplit : c :: cs = (c :: cs.takeWhile isDigit) ++ cs.dropWhile isDigit := by simp
    have hlen := hshort _ hn (by rw [hsplit]; exact List.infix_append [] _ _)
    rw [numberPiece_eq hn hlen] at h
    by_cases hlarge : 2 ^ 63 - 1 < Nat.ofDigitChars 10 (c :: cs.takeWhile isDigit) 0
    · rw [if_pos hlarge] at h
      obtain ⟨hcause, -⟩ := h
      cases hcause
      exact ⟨_, rfl, hsplit ▸ .literal hn hstop hlarge⟩
    · rw [if_neg hlarge] at h
      cases h.1
  simp only [hspace, hletter, hdigit, Bool.false_eq_true, if_false] at h
  split at h
  case h_1 => cases h
  case h_2 body =>
    split at h
    case h_1 => cases h
    case h_2 hopen =>
      cases h
      exact ⟨_, rfl, .comment (commentLength?_eq_none.mp hopen)⟩
  case h_7 hnext =>
    cases h
    refine ⟨_, rfl, .bang fun hhead => ?_⟩
    obtain ⟨rest, rfl⟩ := List.head?_eq_some_iff.mp hhead
    exact hnext rest rfl
  case h_17 =>
    cases h
    refine ⟨_, rfl, .character (mt isSpace_iff.mpr hspace) fun text l hspells hhead => ?_⟩
    rcases hspells.starts hhead with hstart | hstart | hstart
    · exact hletter hstart
    · exact hdigit hstart
    · simp only [List.mem_cons, List.not_mem_nil, or_false] at hstart
      tauto
  all_goals first
    | exact absurd h (cutComparison_ne_fault _ _ _ _ _)
    | cases h

theorem cut_bang {after : List Char} (h : after.head? ≠ some '=') :
    cut '!' after = (.fault .loneBang, 0) := by
  cases after with
  | nil => rfl
  | cons c after =>
      have hc : c ≠ '=' := fun heq => h (congrArg some heq)
      simp [cut, hc, isSpace, isLetter, isDigit]

theorem Filler.starts {filler after : List Char} {c : Char} (h : Filler filler after)
    (hc : filler.head? = some c) : c ∈ blanks ∨ c = '/' := by
  cases h with
  | blank hblank =>
      cases hc
      exact Or.inl hblank
  | lineComment _ _ =>
      cases hc
      exact Or.inr rfl
  | blockComment _ =>
      cases hc
      exact Or.inr rfl

theorem Obstacle.eq_of_no_token {c : Char} {cs : List Char} {category : Category}
    (hnone : ∀ text l, Spells text l → text.head? ≠ some c) (h : Obstacle (c :: cs) category) :
    category = .invalidCharacter (String.singleton c) := by
  generalize hinput : c :: cs = input at h
  cases h with
  | comment _ =>
      cases hinput
      exact absurd rfl (hnone _ _ (.symbol .slash))
  | literal hn _ _ =>
      obtain ⟨d, digits, rfl⟩ := List.exists_cons_of_ne_nil hn.1
      cases hinput
      exact absurd rfl (hnone _ _ (.number hn))
  | bang _ =>
      cases hinput
      exact absurd rfl (hnone _ _ (.symbol .ne))
  | character _ _ =>
      cases hinput
      rfl

/-- At an obstacle nothing can be cut. -/
theorem cut_of_obstacle {cs : List Char} {category : Category} (h : Obstacle cs category)
    (hshort : ShortRuns cs) :
    ∃ c tail cause n, cs = c :: tail ∧ cut c tail = (.fault cause, n) ∧
      cause.category? = some category := by
  cases h with
  | @comment body hopen =>
      refine ⟨'/', '*' :: body, .unterminatedComment, 0, rfl, ?_, rfl⟩
      rw [cut_blockComment, commentLength?_eq_none.mpr hopen]
  | @literal digits after hn hafter hlarge =>
      have hlen := hshort digits hn (List.prefix_append digits after).isInfix
      obtain ⟨c, tail, rfl, hcut⟩ := cut_numeral hn hafter
      rw [numberPiece_eq hn hlen, if_pos hlarge] at hcut
      exact ⟨c, tail ++ after, _, _, rfl, hcut, rfl⟩
  | @bang after hafter => exact ⟨'!', after, _, _, rfl, cut_bang hafter, rfl⟩
  | @character c after hblank hnone =>
      obtain ⟨piece, n, hcut⟩ : ∃ piece n, cut c after = (piece, n) := ⟨_, _, rfl⟩
      cases piece with
      | gap =>
          rcases (filler_of_cut hcut).starts rfl with hmem | rfl
          · exact absurd hmem hblank
          · exact absurd rfl (hnone _ _ (.symbol .slash))
      | lexeme l => exact absurd rfl (hnone _ l (longestCut_of_cut hcut).spells)
      | fault cause =>
          obtain ⟨category, hcategory, hobstacle⟩ := obstacle_of_cut hshort hcut
          rw [hobstacle.eq_of_no_token hnone] at hcategory
          exact ⟨c, after, cause, n, rfl, hcut, hcategory⟩

/-! ## Segmentations -/

/-- The segmentation of a source comes to the place between `before` and `after`, having met the
tokens. -/
inductive Segmented (filename : String) (source : List Char) :
    List Char → List Char → List Token → Prop where
  | start : Segmented filename source [] source []
  | take {before piece after tokens l} : Segmented filename source before (piece ++ after) tokens →
      Takes piece after l →
      Segmented filename source (before ++ piece) after
        (tokens ++ (l.map fun l => ⟨l, locationAfter filename before⟩).toList)

section

variable {filename : String} {source before after : List Char} {tokens : List Token}

theorem Segmented.source_eq (h : Segmented filename source before after tokens) :
    source = before ++ after := by
  induction h with
  | start => rfl
  | take _ _ ih => rw [ih, List.append_assoc]

/-- A piece is taken as well if less text follows it. -/
theorem Takes.shorten {piece mid after : List Char} {l : Option Lexeme}
    (h : Takes piece (mid ++ after) l) : Takes piece mid l := by
  have hfront : piece ++ mid <+: piece ++ (mid ++ after) := ⟨after, by simp⟩
  cases h with
  | filler hfiller =>
      refine .filler ?_
      cases hfiller with
      | blank hc => exact .blank hc
      | lineComment hbody hafter =>
          refine .lineComment hbody fun c hc => hafter c ?_
          obtain ⟨rest, rfl⟩ := List.head?_eq_some_iff.mp hc
          rfl
      | blockComment hbody => exact .blockComment hbody
  | token hcomment hlongest hrange =>
      refine .token (fun hopens => hcomment ?_)
        ⟨hlongest.spells, fun other m hm hother => ?_⟩ hrange
      · exact hopens.imp (·.trans hfront) (·.trans hfront)
      · exact hlongest.longest other m hm (hother.trans hfront)

/-- The text up to a place is segmented as it is within the source. -/
theorem Segmented.shorten {mid rest : List Char} (h : Segmented filename source before rest tokens)
    (hrest : rest = mid ++ after) : Segmented filename (before ++ mid) before mid tokens := by
  induction h generalizing mid with
  | start => exact .start
  | @take before piece rest tokens l _ htakes ih =>
      subst hrest
      have hpieces := ih (List.append_assoc piece mid after).symm
      rw [List.append_assoc]
      exact .take hpieces htakes.shorten

/-- A piece that is taken is scanned by itself. -/
theorem scanFrom_takes {piece : List Char} {l : Option Lexeme} (h : Takes piece after l)
    (hshort : ∀ value, l = some (.number value) → piece.length ≤ 4300) (filename : String)
    (mark : Mark) :
    scanFrom filename mark (piece ++ after) =
      ⟨(l.map fun l => ⟨l, mark.location filename⟩).toList ++
          (scanFrom filename (mark.advance piece) after).tokens,
        (scanFrom filename (mark.advance piece) after).fault⟩ := by
  obtain ⟨c, tail, rfl, hcut⟩ := cut_of_takes h hshort
  cases l with
  | none => exact scanFrom_gap hcut filename mark
  | some l => exact scanFrom_lexeme hcut filename mark

/-! ## Scans -/

/-- Scanning comes to the place between `before` and `after`, having met the tokens: the
segmentation does, and no number on the way is too long to be read. -/
inductive Reached (filename : String) (source : List Char) :
    List Char → List Char → List Token → Prop where
  | start : Reached filename source [] source []
  | take {before piece after tokens l} : Reached filename source before (piece ++ after) tokens →
      Takes piece after l → (∀ value, l = some (.number value) → piece.length ≤ 4300) →
      Reached filename source (before ++ piece) after
        (tokens ++ (l.map fun l => ⟨l, locationAfter filename before⟩).toList)

theorem Reached.segmented (h : Reached filename source before after tokens) :
    Segmented filename source before after tokens := by
  induction h with
  | start => exact .start
  | take _ htakes _ ih => exact .take ih htakes

theorem Spells.isNumeral {text : List Char} {value : Int} (h : Spells text (.number value)) :
    IsNumeral text := by
  cases h with
  | number hn => exact hn

theorem Takes.isNumeral {piece : List Char} {value : Int}
    (h : Takes piece after (some (.number value))) : IsNumeral piece := by
  cases h with
  | token _ hlongest _ => exact hlongest.spells.isNumeral

theorem Segmented.reached (h : Segmented filename source before after tokens)
    (hshort : ShortRuns source) : Reached filename source before after tokens := by
  induction h with
  | start => exact .start
  | @take before piece after tokens l hbefore htakes ih =>
      refine .take ih htakes ?_
      rintro value rfl
      refine hshort piece htakes.isNumeral ?_
      rw [hbefore.source_eq, ← List.append_assoc]
      exact List.infix_append before piece after

/-- Scanning passes the places that it comes to, with the same tokens. -/
theorem Reached.scan (h : Reached filename source before after tokens) :
    scanFrom filename {} source =
      ⟨tokens ++ (scanFrom filename (({} : Mark).advance before) after).tokens,
        (scanFrom filename (({} : Mark).advance before) after).fault⟩ := by
  induction h with
  | start => rfl
  | take _ htakes hshort ih =>
      rw [ih, scanFrom_takes htakes hshort, location_advance, advance_append, List.append_assoc]

theorem Segmented.scan (h : Segmented filename source before after tokens)
    (hshort : ShortRuns source) :
    scanFrom filename {} source =
      ⟨tokens ++ (scanFrom filename (({} : Mark).advance before) after).tokens,
        (scanFrom filename (({} : Mark).advance before) after).fault⟩ :=
  (h.reached hshort).scan

theorem numberPiece_length {digits : List Char} {l : Lexeme} (h : numberPiece digits = .lexeme l) :
    digits.length ≤ 4300 := by
  unfold numberPiece Text.readDecimal at h
  by_contra hlong
  rw [if_pos (Nat.not_le.mp hlong : Text.digitLimit < digits.length)] at h
  cases h

/-- A number that was cut out was short enough to be read. -/
theorem length_of_cut {c : Char} {cs : List Char} {value : Int} {n : Nat}
    (h : cut c cs = (.lexeme (.number value), n)) : (c :: cs.take n).length ≤ 4300 := by
  have hlongest := longestCut_of_cut h
  have hn := hlongest.spells.isNumeral
  obtain ⟨_, _, heq, hcut⟩ := cut_numeral hn (hlongest.numeral hn)
  cases heq
  rw [List.take_append_drop, h] at hcut
  exact numberPiece_length (congrArg Prod.fst hcut).symm

theorem Reached.gap {c : Char} {cs : List Char} {n : Nat}
    (h : Reached filename source before (c :: cs) tokens) (hcut : cut c cs = (.gap, n)) :
    Reached filename source (before ++ c :: cs.take n) (cs.drop n) tokens := by
  rw [← List.take_append_drop n cs, ← List.cons_append] at h
  have hnext := h.take (.filler (filler_of_cut hcut)) (by simp)
  rwa [Option.map_none, Option.toList_none, List.append_nil] at hnext

theorem Reached.lexeme {c : Char} {cs : List Char} {l : Lexeme} {n : Nat}
    (h : Reached filename source before (c :: cs) tokens) (hcut : cut c cs = (.lexeme l, n)) :
    Reached filename source (before ++ c :: cs.take n) (cs.drop n)
      (tokens ++ [⟨l, locationAfter filename before⟩]) := by
  rw [← List.take_append_drop n cs, ← List.cons_append] at h
  refine h.take (takes_of_cut hcut) ?_
  rintro value hl
  cases hl
  exact length_of_cut hcut

/-- Where scanning stops, nothing can be cut. -/
theorem Reached.exists_stop (h : Reached filename source before after tokens) {mark : Mark}
    {fault : ScanFault} (hfault : (scanFrom filename mark after).fault = some fault) :
    ∃ mid c cs n tokens, Reached filename source (before ++ mid) (c :: cs) tokens ∧
      cut c cs = (.fault fault.cause, n) ∧ fault.mark = mark.advance mid := by
  fun_induction scanFrom filename mark after generalizing before tokens with
  | case1 => cases hfault
  | case2 mark c cs cause n hcut =>
      cases hfault
      exact ⟨[], c, cs, n, tokens, by rwa [List.append_nil], hcut, rfl⟩
  | case3 mark c cs n hcut ih =>
      obtain ⟨mid, d, ds, m, us, hreached, hstop, hmark⟩ := ih (h.gap hcut) hfault
      rw [← advance_append] at hmark
      rw [List.append_assoc] at hreached
      exact ⟨_, d, ds, m, us, hreached, hstop, hmark⟩
  | case4 mark c cs l n hcut ih =>
      obtain ⟨mid, d, ds, m, us, hreached, hstop, hmark⟩ := ih (h.lexeme hcut) hfault
      rw [← advance_append] at hmark
      rw [List.append_assoc] at hreached
      exact ⟨_, d, ds, m, us, hreached, hstop, hmark⟩

theorem Segmented.exists_obstacle (h : Segmented filename source before after tokens)
    (hshort : ShortRuns source) {mark : Mark}
    (hfault : (scanFrom filename mark after).fault ≠ none) :
    ∃ before after tokens category, Segmented filename source before after tokens ∧
      Obstacle after category := by
  obtain ⟨fault, hfault⟩ := Option.ne_none_iff_exists'.mp hfault
  obtain ⟨mid, c, cs, n, us, hreached, hcut, -⟩ := (h.reached hshort).exists_stop hfault
  have hrest : c :: cs <:+: source := by
    rw [hreached.segmented.source_eq]
    exact (List.suffix_append _ _).isInfix
  obtain ⟨category, -, hobstacle⟩ := obstacle_of_cut (hshort.mono hrest) hcut
  exact ⟨_, _, us, category, hreached.segmented, hobstacle⟩

end

/-- Every cause with a kind of report is reported where scanning stopped. -/
theorem diagnostic_of_category {cause : Cause} {category : Category}
    (h : cause.category? = some category) (mark : Mark) (filename source : String) :
    ∃ d, ScanFault.diagnostic ⟨cause, mark⟩ filename source = .ok d ∧ d.category = category ∧
      d.location = some (mark.location filename) := by
  cases cause with
  | tooManyDigits excess => cases h
  | _ =>
      cases h
      exact ⟨_, rfl, rfl, rfl⟩

end Scan

open Scan

/-- Scanning stops exactly if the segmentation of the source comes to an obstacle. Then the report
is of the kind that belongs to the obstacle and points at it, and the tokens are those of the text
before it. -/
theorem scan_stops_iff {source : String} (hshort : ShortRuns source.toList) (filename : String) :
    ((scan source filename).fault ≠ none ↔
      ∃ before after tokens category, Segmented filename source.toList before after tokens ∧
        Obstacle after category) ∧
    ∀ before after tokens category, Segmented filename source.toList before after tokens →
      Obstacle after category →
      source.toList = before ++ after ∧
      (∃ d, tokensOf source filename = .error (.report d) ∧ d.category = category ∧
        d.location = some (locationAfter filename before)) ∧
      (scan source filename).tokens = tokens ∧
      ∃ last, last.isEnd = true ∧
        tokensOf (String.ofList before) filename = .ok (tokens ++ [last]) := by
  have hstops : ∀ before after tokens category,
      Segmented filename source.toList before after tokens → Obstacle after category →
      ∃ cause, cause.category? = some category ∧
        scan source filename = ⟨tokens, some ⟨cause, ({} : Mark).advance before⟩⟩ := by
    intro before after tokens category h hobstacle
    have hafter : after <:+: source.toList := by
      rw [h.source_eq]
      exact (List.suffix_append before after).isInfix
    obtain ⟨c, tail, cause, n, rfl, hcut, hcategory⟩ :=
      cut_of_obstacle hobstacle (hshort.mono hafter)
    refine ⟨cause, hcategory, ?_⟩
    rw [scan, h.scan hshort, scanFrom, hcut, List.append_nil]
  constructor
  · constructor
    · exact Segmented.start.exists_obstacle hshort
    · rintro ⟨before, after, tokens, category, h, hobstacle⟩
      obtain ⟨cause, -, hscan⟩ := hstops before after tokens category h hobstacle
      rw [hscan]
      exact Option.some_ne_none _
  · intro before after tokens category h hobstacle
    obtain ⟨cause, hcategory, hscan⟩ := hstops before after tokens category h hobstacle
    refine ⟨h.source_eq, ?_, by rw [hscan], ?_⟩
    · obtain ⟨d, hd, hkind, hplace⟩ :=
        diagnostic_of_category hcategory (({} : Mark).advance before) filename source
      refine ⟨d, ?_, hkind, by rw [hplace, location_advance]⟩
      rw [tokensOf, hscan]
      simp only [ScanFault.failure, hd, Failure.ofReport]
    · have hbefore : ShortRuns before := by
        refine hshort.mono ?_
        rw [h.source_eq]
        exact (List.prefix_append before after).isInfix
      have hfront : Segmented filename (before ++ []) before [] tokens := h.shorten rfl
      rw [List.append_nil] at hfront
      refine ⟨⟨.endOfInput, (({} : Mark).advance before).location filename⟩, rfl, ?_⟩
      simp only [tokensOf, scan, String.toList_ofList, hfront.scan hbefore, scanFrom]

/-- Comments hide two characters that start no token, and the last one comes too late. -/
def tooLarge : String := "n=/* @ */1//#\n/ 9223372036854775808!"

theorem scan_stops_iff_tooLarge :
    ∃ before after tokens d last, Segmented "<input>" tooLarge.toList before after tokens ∧
      Obstacle after .lexical ∧ before.length = 16 ∧ tokensOf tooLarge = .error (.report d) ∧
      d.location = some ⟨"<input>", 2, 3, 16⟩ ∧
      tokens.map Token.lexeme =
        [.identifier "n", .symbol .assign "=", .number 1, .symbol .slash "/"] ∧
      tokensOf (String.ofList before) = .ok (tokens ++ [last]) := by
  have hshort : ShortRuns tooLarge.toList := fun run _ hrun =>
    hrun.length_le.trans (by decide +kernel)
  have hfault : (scan tooLarge).fault =
      some ⟨.literalRange "9223372036854775808", ⟨2, 3, 16, 14⟩⟩ := by
    decide +kernel
  have hreport : ∃ d, tokensOf tooLarge = .error (.report d) ∧ d.category = .lexical ∧
      d.location = some ⟨"<input>", 2, 3, 16⟩ := by
    simp only [tokensOf, hfault]
    exact ⟨_, rfl, rfl, rfl⟩
  obtain ⟨hiff, hstops⟩ := scan_stops_iff hshort "<input>"
  obtain ⟨before, after, tokens, category, h, hobstacle⟩ :=
    hiff.mp (by rw [hfault]; exact Option.some_ne_none _)
  obtain ⟨-, ⟨d, hd, rfl, hplace⟩, htokens, last, -, hbefore⟩ :=
    hstops before after tokens category h hobstacle
  obtain ⟨d', hd', hkind, hplace'⟩ := hreport
  cases hd.symm.trans hd'
  rw [hkind] at hobstacle
  refine ⟨before, after, tokens, d, last, h, hobstacle, ?_, hd, hplace', ?_, hbefore⟩
  · have hoffset := congrArg Location.offset (Option.some.inj (hplace.symm.trans hplace'))
    exact Int.ofNat.inj hoffset
  · rw [← htokens]
    decide +kernel

end StackLang
