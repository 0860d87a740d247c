import Mathlib.Data.List.DropRight
import StackLang.Proofs.Cuts
import StackLang.Proofs.Source

/-!
# Texts laid out in tokens

A text that is scanned without a fault falls into the texts of its tokens and gaps between them. No
character is lost: a gap holds nothing but blanks and comments, every word and every number is as
long as it can be, and every token carries the place where its text starts.
-/

namespace StackLang

namespace Scan

/-! ## Neighbours -/

/-- A name or number that starts here is not a part of one that started before: all that it touches
are the digits of a number, and then it is no number itself. -/
def Parted (before rest : List Char) : Prop :=
  ∀ c ∈ rest.head?, isNamePart c = true →
    (∀ d ∈ before.rtakeWhile isNamePart, isDigit d = true) ∧
      (before.rtakeWhile isNamePart ≠ [] → isDigit c = false)

theorem parted_of_rest {before rest : List Char} (h : ∀ c ∈ rest.head?, isNamePart c = false) :
    Parted before rest := by
  intro c hc hpart
  rw [h c hc] at hpart
  cases hpart

theorem parted_of_last {c : Char} (h : isNamePart c = false) (before rest : List Char) :
    Parted (before ++ [c]) rest := by
  intro d _ _
  rw [List.rtakeWhile_concat_neg _ _ _ (by simp [h])]
  simp

theorem parted_nil (rest : List Char) : Parted [] rest := by
  intro d _ _
  simp

theorem Filler.parted {filler after : List Char} (h : Filler filler after) (before : List Char) :
    Parted (before ++ filler) after := by
  cases h with
  | blank hc =>
      refine parted_of_last ?_ before after
      simp only [blanks, List.mem_cons, List.not_mem_nil, or_false] at hc
      rcases hc with rfl | rfl | rfl | rfl | rfl | rfl <;> decide
  | lineComment _ hafter =>
      refine parted_of_rest fun c hc => ?_
      rw [hafter c hc]
      decide
  | @blockComment body after _ =>
      have hlast : before ++ '/' :: '*' :: (body ++ ['*', '/']) =
          (before ++ '/' :: '*' :: (body ++ ['*'])) ++ ['/'] := by simp
      rw [hlast]
      exact parted_of_last (by decide) _ after

theorem rtakeWhile_append {p : Char → Bool} {cs : List Char} (before : List Char)
    (h : ∀ c ∈ cs, p c = true) :
    (before ++ cs).rtakeWhile p = before.rtakeWhile p ++ cs := by
  rw [List.rtakeWhile, List.reverse_append, List.takeWhile_append_of_pos, List.reverse_append,
    List.reverse_reverse, List.rtakeWhile]
  intro c hc
  exact h c (List.mem_reverse.mp hc)

theorem spelling_ends (s : Symbol) :
    IsWord s.spelling.toList ∨ ∃ cs c, s.spelling.toList = cs ++ [c] ∧ isNamePart c = false := by
  cases s
  case return_ | if_ | else_ | while_ | for_ =>
    exact Or.inl ⟨⟨_, rfl, by decide⟩, List.all_eq_true.mp (by decide)⟩
  case eq | ne | le | ge => exact Or.inr ⟨[_], '=', rfl, by decide⟩
  all_goals exact Or.inr ⟨[], _, rfl, by decide⟩

theorem LongestCut.parted {before text after : List Char} {l : Lexeme}
    (h : LongestCut text after l) (hp : Parted before (text ++ after)) :
    Parted (before ++ text) after := by
  have hword : IsWord text → Parted (before ++ text) after :=
    fun hw => parted_of_rest (h.word hw)
  cases h.spells with
  | name hw _ => exact hword hw
  | symbol s =>
      rcases spelling_ends s with hw | ⟨cs, c, hcs, hc⟩
      · exact hword hw
      · rw [hcs, ← List.append_assoc]
        exact parted_of_last hc _ after
  | number hn =>
      intro c hc hpart
      obtain ⟨d, ds, rfl⟩ := List.exists_cons_of_ne_nil hn.1
      have hd : isDigit d = true := hn.2 d List.mem_cons_self
      have hstart := (hp d rfl (isNamePart_of_isDigit hd)).2
      have hnil : before.rtakeWhile isNamePart = [] := by
        by_contra hne
        rw [hstart hne] at hd
        cases hd
      rw [rtakeWhile_append before fun x hx => isNamePart_of_isDigit (hn.2 x hx), hnil]
      exact ⟨hn.2, fun _ => h.numeral hn c hc⟩

/-- No longer stretch of the source that contains the one at index `i` has the form. -/
def Maximal (form : List Char → Prop) (source : List Char) (i : Nat) (text : List Char) : Prop :=
  ∀ j other, form other → other <+: source.drop j → j ≤ i → i + text.length ≤ j + other.length →
    j = i ∧ other = text

/-- A stretch around another one starts before it and ends after it. -/
theorem exists_around {before text after other : List Char} {j : Nat}
    (hother : other <+: (before ++ text ++ after).drop j) (hj : j ≤ before.length)
    (hlen : before.length + text.length ≤ j + other.length) :
    ∃ more, other = before.drop j ++ text ++ more ∧ more <+: after := by
  rw [List.append_assoc, List.drop_append_of_le_length hj, ← List.append_assoc] at hother
  have hfront : before.drop j ++ text <+: other := by
    refine List.prefix_of_prefix_length_le (List.prefix_append _ _) hother ?_
    simp only [List.length_append, List.length_drop]
    omega
  obtain ⟨more, rfl⟩ := hfront
  exact ⟨more, rfl, (List.prefix_append_right_inj _).mp hother⟩

/-- Only in front could a stretch of one class be longer than one after which the class ends. -/
theorem eq_of_around {p : Char → Bool} {before text after other : List Char} {j : Nat}
    (hafter : ∀ c ∈ after.head?, p c = false) (hall : ∀ c ∈ other, p c = true)
    (hother : other <+: (before ++ text ++ after).drop j) (hj : j ≤ before.length)
    (hlen : before.length + text.length ≤ j + other.length) :
    other = before.drop j ++ text := by
  obtain ⟨more, rfl, hmore⟩ := exists_around hother hj hlen
  cases more with
  | nil => simp
  | cons c more =>
      obtain ⟨rest, rfl⟩ := hmore
      have hc := hall c (by simp)
      rw [hafter c (by simp)] at hc
      cases hc

theorem mem_rtakeWhile_of_mem_drop {p : Char → Bool} (before : List Char) (j : Nat)
    (hall : ∀ c ∈ before.drop j, p c = true) :
    ∀ c ∈ before.drop j, c ∈ before.rtakeWhile p := by
  intro c hc
  have hsplit := rtakeWhile_append (before.take j) hall
  rw [List.take_append_drop] at hsplit
  rw [hsplit]
  exact List.mem_append_right _ hc

theorem LongestCut.maximal_word {before text after : List Char} {l : Lexeme}
    (h : LongestCut text after l) (hp : Parted before (text ++ after)) (hw : IsWord text) :
    Maximal IsWord (before ++ text ++ after) before.length text := by
  intro j other hother hprefix hj hlen
  obtain rfl := eq_of_around (h.word hw) hother.2 hprefix hj hlen
  obtain ⟨⟨c, hc, hletter⟩, -⟩ := hw
  have hhead : c ∈ (text ++ after).head? := by
    cases text with
    | nil => simp at hc
    | cons d text => simpa using hc
  have htouch := (hp c hhead (isNamePart_of_isLetter hletter)).1
  have hmem := mem_rtakeWhile_of_mem_drop (p := isNamePart) before j
    fun x hx => hother.2 x (List.mem_append_left _ hx)
  have hnil : before.drop j = [] := by
    cases hdrop : before.drop j with
    | nil => rfl
    | cons d ds =>
        rw [hdrop] at hmem hother
        obtain ⟨⟨e, he, he'⟩, -⟩ := hother
        obtain rfl : d = e := by simpa using he
        have hdigit := htouch d (hmem d List.mem_cons_self)
        rw [not_isDigit_of_isLetter he'] at hdigit
        cases hdigit
  rw [hnil]
  rw [List.drop_eq_nil_iff] at hnil
  exact ⟨by omega, rfl⟩

theorem LongestCut.maximal_numeral {before text after : List Char} {l : Lexeme}
    (h : LongestCut text after l) (hp : Parted before (text ++ after)) (hn : IsNumeral text) :
    Maximal IsNumeral (before ++ text ++ after) before.length text := by
  intro j other hother hprefix hj hlen
  obtain rfl := eq_of_around (h.numeral hn) hother.2 hprefix hj hlen
  obtain ⟨c, cs, rfl⟩ := List.exists_cons_of_ne_nil hn.1
  have hc : isDigit c = true := hn.2 c List.mem_cons_self
  have htouch := (hp c rfl (isNamePart_of_isDigit hc)).2
  have hmem := mem_rtakeWhile_of_mem_drop (p := isNamePart) before j
    fun x hx => isNamePart_of_isDigit (hother.2 x (List.mem_append_left _ hx))
  have hnil : before.drop j = [] := by
    cases hdrop : before.drop j with
    | nil => rfl
    | cons d ds =>
        rw [hdrop] at hmem
        rw [htouch (List.ne_nil_of_mem (hmem d List.mem_cons_self))] at hc
        cases hc
  rw [hnil]
  rw [List.drop_eq_nil_iff] at hnil
  exact ⟨by omega, rfl⟩

/-! ## Places -/

/-- The place after some characters: only line feeds start a line. -/
def locationAfter (filename : String) (cs : List Char) : Location :=
  ⟨filename, 1 + cs.count '\n', 1 + (cs.rtakeWhile (· != '\n')).length, cs.length⟩

theorem advance_append (m : Mark) (cs ds : List Char) :
    m.advance (cs ++ ds) = (m.advance cs).advance ds :=
  List.foldl_append

theorem location_advance (filename : String) (cs : List Char) :
    (({} : Mark).advance cs).location filename = locationAfter filename cs := by
  induction cs using List.reverseRecOn with
  | nil => rfl
  | append_singleton cs c ih =>
      simp only [locationAfter, Mark.location, Location.mk.injEq, true_and] at ih ⊢
      obtain ⟨hline, hcolumn, hoffset⟩ := ih
      rw [advance_append, Mark.advance, List.foldl_cons, List.foldl_nil, Mark.next]
      by_cases hc : c = '\n'
      · subst hc
        rw [List.rtakeWhile_concat_neg _ _ _ (by decide), if_pos rfl, List.count_append,
          List.length_append]
        exact ⟨by simp; omega, rfl, by simp; omega⟩
      · rw [List.rtakeWhile_concat_pos _ _ _ (by simpa using hc), if_neg hc, List.count_append,
          List.length_append, List.length_append]
        exact ⟨by simpa [hc] using hline, by simp; omega, by simp; omega⟩

/-! ## Segments -/

/-- The token stands for the text, which is cut out of a source between `before` and `after`. -/
structure CutFrom (filename : String) (before text after : List Char) (t : Token) : Prop where
  place : t.location = locationAfter filename before
  spells : Spells text t.lexeme
  keyword : IsWord text → ((∃ k ∈ Symbol.keywords, t.lexeme = .symbol k k.spelling) ↔
    String.ofList text ∈ ["return", "if", "else", "while", "for"])
  word : IsWord text → Maximal IsWord (before ++ text ++ after) before.length text
  numeral : IsNumeral text → Maximal IsNumeral (before ++ text ++ after) before.length text
  comparison : ∀ c ∈ ['=', '!', '<', '>'], text.head? = some c →
    text = if (text.tail ++ after).head? = some '=' then [c, '='] else [c]

theorem Spells.ne_nil {text : List Char} {l : Lexeme} (h : Spells text l) : text ≠ [] := by
  cases h with
  | name hw _ =>
      rintro rfl
      obtain ⟨⟨c, hc, -⟩, -⟩ := hw
      cases hc
  | number hn => exact hn.1
  | symbol s => cases s <;> decide

theorem Spells.keyword_iff {text : List Char} {l : Lexeme} (h : Spells text l) (hw : IsWord text) :
    (∃ k ∈ Symbol.keywords, l = .symbol k k.spelling) ↔
      String.ofList text ∈ ["return", "if", "else", "while", "for"] := by
  cases h with
  | name _ hkey => simp [hkey]
  | number hn => exact absurd hw hn.not_isWord
  | symbol s =>
      have hspelling : String.ofList s.spelling.toList = s.spelling := String.ofList_toList
      rw [hspelling]
      cases s <;> decide

theorem LongestCut.cutFrom {before text after : List Char} {l : Lexeme}
    (h : LongestCut text after l) (hp : Parted before (text ++ after)) (filename : String) :
    CutFrom filename before text after ⟨l, locationAfter filename before⟩ where
  place := rfl
  spells := h.spells
  keyword := h.spells.keyword_iff
  word := h.maximal_word hp
  numeral := h.maximal_numeral hp
  comparison := h.comparison

/-- A token with its text, and what stands between it and the token before. -/
structure Segment where
  gap : List Char
  text : List Char
  token : Token

def Segment.chars (s : Segment) : List Char :=
  s.gap ++ s.text

/-- The characters of some segments in order. -/
def charsOf (segments : List Segment) : List Char :=
  segments.flatMap Segment.chars

@[simp] theorem charsOf_nil : charsOf [] = [] := rfl

@[simp] theorem charsOf_cons (s : Segment) (rest : List Segment) :
    charsOf (s :: rest) = s.gap ++ (s.text ++ charsOf rest) := by
  simp [charsOf, Segment.chars]

/-- The segment belongs between `before` and `after`. -/
structure Segment.Fits (filename : String) (before after : List Char) (s : Segment) : Prop where
  gap : Gap (s.text ++ after) s.gap
  cutFrom : CutFrom filename (before ++ s.gap) s.text after s.token

/-- Segments that make up a text after `before`, up to the gap at its end. -/
def Laid (filename : String) (trail : List Char) : List Char → List Segment → Prop
  | _, [] => True
  | before, s :: rest =>
    s.Fits filename before (charsOf rest ++ trail) ∧
      Laid filename trail (before ++ (s.gap ++ s.text)) rest

theorem Laid.fits {filename : String} {trail before : List Char} {xs ys : List Segment}
    {s : Segment} (h : Laid filename trail before (xs ++ s :: ys)) :
    s.Fits filename (before ++ charsOf xs) (charsOf ys ++ trail) := by
  induction xs generalizing before with
  | nil => simpa using h.1
  | cons x xs ih => simpa using ih h.2

/-- The tokens of some segments, with the end of the input after the last gap. -/
def tokensIn (filename : String) (trail before : List Char) (segments : List Segment) :
    List Token :=
  segments.map Segment.token ++
    [⟨.endOfInput, locationAfter filename (before ++ (charsOf segments ++ trail))⟩]

/-- The scan of a text yields the tokens of segments that make up the text. -/
theorem scanFrom_laid (filename : String) (before : List Char) {mark : Mark} {cs : List Char}
    (hmark : mark = ({} : Mark).advance before) (hp : Parted before cs)
    (h : (scanFrom filename mark cs).fault = none) :
    ∃ segments trail, cs = charsOf segments ++ trail ∧ Gap [] trail ∧
      Laid filename trail before segments ∧
      (scanFrom filename mark cs).tokens = tokensIn filename trail before segments := by
  fun_induction scanFrom filename mark cs generalizing before with
  | case1 mark =>
      refine ⟨[], [], rfl, .nil, trivial, ?_⟩
      simp [tokensIn, hmark, location_advance]
  | case2 mark c cs cause n hcut => cases h
  | case3 mark c cs n hcut ih =>
      have hfiller := filler_of_cut hcut
      obtain ⟨segments, trail, hcs, htrail, hlaid, htokens⟩ :=
        ih _ (by rw [hmark, advance_append]) (hfiller.parted before) h
      have hall : c :: cs = (c :: cs.take n) ++ (charsOf segments ++ trail) := by
        rw [← hcs]
        simp
      cases segments with
      | nil =>
          refine ⟨[], (c :: cs.take n) ++ trail, by simpa using hall, ?_, trivial, ?_⟩
          · refine .cons ?_ htrail
            rw [hcs] at hfiller
            simpa using hfiller
          · rw [htokens]
            simp [tokensIn]
      | cons s rest =>
          rw [hcs] at hfiller
          obtain ⟨⟨hgap, hcutFrom⟩, hrest⟩ := hlaid
          refine ⟨{ s with gap := (c :: cs.take n) ++ s.gap } :: rest, trail, by simpa using hall,
            htrail, ⟨⟨.cons (by simpa using hfiller) hgap, ?_⟩, ?_⟩, ?_⟩
          · simpa using hcutFrom
          · simpa using hrest
          · rw [htokens]
            simp [tokensIn]
  | case4 mark c cs l n hcut ih =>
      have hcut := longestCut_of_cut hcut
      have hall : c :: cs = (c :: cs.take n) ++ cs.drop n := by simp
      rw [hall] at hp
      obtain ⟨segments, trail, hcs, htrail, hlaid, htokens⟩ :=
        ih _ (by rw [hmark, advance_append]) (hcut.parted hp) h
      have hplace : mark.location filename = locationAfter filename before := by
        rw [hmark, location_advance]
      refine ⟨⟨[], c :: cs.take n, ⟨l, mark.location filename⟩⟩ :: segments, trail, ?_, htrail,
        ⟨⟨.nil, ?_⟩, ?_⟩, ?_⟩
      · rw [hall, hcs]
        simp
      · rw [hplace, ← hcs]
        simpa using hcut.cutFrom hp filename
      · simpa using hlaid
      · rw [push, htokens]
        simp [tokensIn]

/-- Every token starts after the one before it, since no token has an empty text. -/
theorem Laid.increasing {filename : String} {trail before : List Char} {segments : List Segment}
    (h : Laid filename trail before segments) :
    (∀ t ∈ tokensIn filename trail before segments, (before.length : Int) ≤ t.location.offset) ∧
      (tokensIn filename trail before segments).Pairwise
        fun t u => t.location.offset < u.location.offset := by
  induction segments generalizing before with
  | nil =>
      constructor
      · intro t ht
        obtain rfl : t = ⟨.endOfInput, locationAfter filename (before ++ trail)⟩ := by
          simpa [tokensIn] using ht
        simp [locationAfter]
      · exact List.pairwise_singleton _ _
  | cons s rest ih =>
      obtain ⟨hlater, hpairs⟩ := ih h.2
      have htokens : tokensIn filename trail before (s :: rest) =
          s.token :: tokensIn filename trail (before ++ (s.gap ++ s.text)) rest := by
        simp [tokensIn]
      have hstart : s.token.location.offset = (before.length + s.gap.length : Nat) := by
        rw [h.1.cutFrom.place]
        simp [locationAfter]
      have hpos : 0 < s.text.length := List.length_pos_iff.mpr h.1.cutFrom.spells.ne_nil
      simp only [List.length_append] at hlater
      rw [htokens]
      constructor
      · intro t ht
        rcases List.mem_cons.mp ht with rfl | ht
        · omega
        · have hle := hlater t ht
          omega
      · refine List.pairwise_cons.mpr ⟨fun t ht => ?_, hpairs⟩
        have hle := hlater t ht
        omega

/-- A source, its tokens, and the segments that both fall into. -/
structure Tiles (filename : String) (source : List Char) (tokens : List Token)
    (segments : List Segment) (trail : List Char) : Prop where
  source_eq : source = charsOf segments ++ trail
  tokens_eq : tokens =
    segments.map Segment.token ++ [⟨.endOfInput, locationAfter filename source⟩]
  last_gap : Gap [] trail
  fits : ∀ xs s ys, segments = xs ++ s :: ys →
    s.Fits filename (charsOf xs) (charsOf ys ++ trail)
  slice : ∀ s ∈ segments,
    (source.drop s.token.location.offset.toNat).take s.text.length = s.text
  increasing : tokens.Pairwise fun t u => t.location.offset < u.location.offset

theorem Laid.tiles {filename : String} {trail : List Char} {segments : List Segment}
    (h : Laid filename trail [] segments) (htrail : Gap [] trail) :
    Tiles filename (charsOf segments ++ trail) (tokensIn filename trail [] segments) segments
      trail where
  source_eq := rfl
  tokens_eq := rfl
  last_gap := htrail
  fits := by
    rintro xs s ys rfl
    exact h.fits
  slice := by
    intro s hs
    obtain ⟨xs, ys, rfl⟩ := List.append_of_mem hs
    have hplace := (Laid.fits h).cutFrom.place
    have hoffset : s.token.location.offset.toNat = (charsOf xs ++ s.gap).length := by
      rw [hplace, List.nil_append]
      exact Int.toNat_natCast _
    have hsource : charsOf (xs ++ s :: ys) ++ trail =
        (charsOf xs ++ s.gap) ++ (s.text ++ (charsOf ys ++ trail)) := by
      simp [charsOf, Segment.chars]
    rw [hoffset, hsource, List.drop_left, List.take_left]
  increasing := h.increasing.2

end Scan

open Scan

/-- A source that is scanned without a fault is made up of the texts of its tokens, each as long as
it can be and starting where the token says, and of gaps that hold only blanks and comments. -/
theorem tokensOf_faithful {source filename : String} {tokens : List Token}
    (h : tokensOf source filename = .ok tokens) :
    ∃ segments trail, Tiles filename source.toList tokens segments trail := by
  unfold tokensOf at h
  cases hfault : (scan source filename).fault with
  | some fault => simp [hfault] at h
  | none =>
      simp only [hfault, Except.ok.injEq] at h
      obtain ⟨segments, trail, hsource, htrail, hlaid, htokens⟩ :=
        scanFrom_laid filename [] rfl (parted_nil _) hfault
      have htiles := hlaid.tiles htrail
      rw [← hsource, ← htokens] at htiles
      exact ⟨segments, trail, h ▸ htiles⟩

def layout : String := "007ab/* //\n*/iffy>==1//=\n/"

theorem tokensOf_faithful_layout :
    ∃ tokens segments trail, tokensOf layout = .ok tokens ∧
      tokens.map (fun t => (t.lexeme, t.location.line, t.location.column)) =
        [(.number 7, 1, 1), (.identifier "ab", 1, 4), (.identifier "iffy", 2, 3),
          (.symbol .ge ">=", 2, 7), (.symbol .assign "=", 2, 9), (.number 1, 2, 10),
          (.symbol .slash "/", 3, 1), (.endOfInput, 3, 2)] ∧
      Tiles "<input>" layout.toList tokens segments trail := by
  have hcheck : ((tokensOf layout).toOption.any fun tokens => decide
      (tokens.map (fun t => (t.lexeme, t.location.line, t.location.column)) =
        [(.number 7, 1, 1), (.identifier "ab", 1, 4), (.identifier "iffy", 2, 3),
          (.symbol .ge ">=", 2, 7), (.symbol .assign "=", 2, 9), (.number 1, 2, 10),
          (.symbol .slash "/", 3, 1), (.endOfInput, 3, 2)])) = true := by
    decide +kernel
  obtain ⟨tokens, htokens, hcheck⟩ := exists_ok_of_any hcheck
  obtain ⟨segments, trail, htiles⟩ := tokensOf_faithful htokens
  exact ⟨tokens, segments, trail, htokens, of_decide_eq_true hcheck, htiles⟩

end StackLang
