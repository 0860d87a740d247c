import Mathlib.Data.List.DropRight
import Mathlib.Data.List.TakeWhile
import Mathlib.Tactic
import StackLang.Assembly.Reader

/-!
# The text of listings

What the reader of listings makes of the pieces of a line: characters that keep a word together,
blanks around it, and numbers in decimal notation.
-/

namespace StackLang.Text

/-- A character that neither ends a line, a word or an operand nor starts a comment, nor closes a
label. -/
def isPlain (c : Char) : Bool :=
  !isBlank c && c != ',' && c != '#' && c != ':'

theorem isBlank_of_isLineEnd {c : Char} (h : isLineEnd c = true) : isBlank c = true := by
  simp only [isLineEnd, isBlank, Bool.or_eq_true, Bool.and_eq_true, decide_eq_true_eq,
    beq_iff_eq] at h ⊢
  omega

theorem isPlain_iff {c : Char} :
    isPlain c = true ↔ isBlank c = false ∧ c ≠ ',' ∧ c ≠ '#' ∧ c ≠ ':' := by
  simp [isPlain, and_assoc]

theorem not_isBlank_of_isPlain {c : Char} (h : isPlain c = true) : isBlank c = false :=
  (isPlain_iff.mp h).1

/-- A property of ASCII characters, checked one by one. -/
theorem of_ascii {p : Char → Prop} {c : Char} (hc : c.toNat < 0x80)
    (h : ∀ n < 0x80, p (Char.ofNat n)) : p c := by
  have hp := h c.toNat hc
  rwa [Char.ofNat_toNat] at hp

/-- The blanks outside ASCII. -/
def wideBlanks : List Nat :=
  [0x85, 0xA0, 0x1680, 0x2000, 0x2001, 0x2002, 0x2003, 0x2004, 0x2005, 0x2006, 0x2007, 0x2008,
    0x2009, 0x200A, 0x2028, 0x2029, 0x202F, 0x205F, 0x3000]

theorem mem_wideBlanks {c : Char} (h : isBlank c = true) (hc : 0x80 ≤ c.toNat) :
    c.toNat ∈ wideBlanks := by
  simp only [isBlank, Bool.or_eq_true, Bool.and_eq_true, decide_eq_true_eq, beq_iff_eq] at h
  simp only [wideBlanks, List.mem_cons, List.not_mem_nil, or_false]
  omega

theorem wordRanges_skip_blanks :
    wordRanges.toList.all (fun r => wideBlanks.all fun b => b < r.1 || r.2 < b) = true := by
  decide +kernel

theorem isPlain_of_wide {c : Char} (hc : 0x80 ≤ c.toNat) (h : isBlank c = false) :
    isPlain c = true := by
  refine isPlain_iff.mpr ⟨h, ?_, ?_, ?_⟩
  all_goals
    rintro rfl
    revert hc
    decide

/-- No letter or numeral is a blank or a mark. -/
theorem isPlain_of_isWordChar {c : Char} (h : isWordChar c = true) : isPlain c = true := by
  unfold isWordChar at h
  by_cases hc : c.toNat < 0x80
  · simp only [hc, if_true] at h
    revert h
    exact of_ascii (p := fun c => (c.isAlphanum || c == '_') = true → isPlain c = true) hc
      (by decide +kernel)
  · simp only [hc, if_false] at h
    refine isPlain_of_wide (by omega) ?_
    rw [Array.any_eq_true'] at h
    obtain ⟨r, hr, hin⟩ := h
    by_contra hblank
    have hmem := mem_wideBlanks (by simpa using hblank) (by omega)
    have hskip := List.all_eq_true.mp
      (List.all_eq_true.mp wordRanges_skip_blanks r (Array.mem_def.mp hr)) c.toNat hmem
    simp only [Bool.and_eq_true, decide_eq_true_eq] at hin
    simp only [Bool.or_eq_true, decide_eq_true_eq] at hskip
    omega

/-! ## Blanks -/

theorem trim_eq_self {cs : List Char} (hhead : ∀ c ∈ cs.head?, isBlank c = false)
    (hlast : ∀ c ∈ cs.getLast?, isBlank c = false) : trim cs = cs := by
  have hdrop : cs.dropWhile isBlank = cs := by
    cases cs with
    | nil => rfl
    | cons c cs => simp [hhead c (by simp)]
  have hrdrop : cs.rdropWhile isBlank = cs := by
    rw [List.rdropWhile_eq_self_iff]
    intro hne
    simp [hlast _ (List.getLast?_eq_some_getLast hne)]
  rw [trim, hdrop]
  exact hrdrop

theorem trim_of_isPlain {cs : List Char} (h : ∀ c ∈ cs, isPlain c = true) : trim cs = cs := by
  refine trim_eq_self (fun c hc => ?_) fun c hc => ?_
  · exact not_isBlank_of_isPlain (h c (List.mem_of_mem_head? hc))
  · exact not_isBlank_of_isPlain (h c (List.mem_of_mem_getLast? hc))

theorem trim_indented {cs : List Char} (n : Nat) :
    trim (List.replicate n ' ' ++ cs) = trim cs := by
  have hspaces : ∀ c ∈ List.replicate n ' ', isBlank c = true := by
    intro c hc
    rw [List.eq_of_mem_replicate hc]
    decide
  rw [trim, trim, List.dropWhile_append_of_pos hspaces]

/-- A word, blanks, and what follows them. -/
theorem cutWord_append {word gap rest : List Char} (hword : ∀ c ∈ word, isBlank c = false)
    (hgap : ∀ c ∈ gap, isBlank c = true) (hne : gap ≠ [])
    (hrest : ∀ c ∈ rest.head?, isBlank c = false) :
    cutWord (word ++ (gap ++ rest)) = (word, rest) := by
  have hword' : ∀ c ∈ word, (!isBlank c) = true := fun c hc => by simp [hword c hc]
  obtain ⟨b, gap, rfl⟩ := List.exists_cons_of_ne_nil hne
  have hb := hgap b (by simp)
  rw [cutWord, List.takeWhile_append_of_pos hword', List.dropWhile_append_of_pos hword']
  simp only [List.cons_append, List.takeWhile_cons, List.dropWhile_cons, hb, Bool.not_true,
    Bool.false_eq_true, if_false, if_true, List.append_nil]
  rw [List.dropWhile_append_of_pos fun c hc => hgap c (by simp [hc])]
  cases rest with
  | nil => rfl
  | cons c rest => simp [hrest c (by simp)]

theorem cutWord_word {word : List Char} (hword : ∀ c ∈ word, isBlank c = false) :
    cutWord word = (word, []) := by
  have hword' : ∀ c ∈ word, (!isBlank c) = true := fun c hc => by simp [hword c hc]
  rw [cutWord, List.takeWhile_eq_self_iff.mpr hword', List.dropWhile_eq_nil_iff.mpr hword']
  rfl

/-! ## Lower case -/

/-- A small letter, or a character of ASCII without case. -/
def isLowered (c : Char) : Bool :=
  c.toNat < 0x80 && c.toLower == c

theorem lower_eq_self {cs : List Char} (h : ∀ c ∈ cs, isLowered c = true) : lower cs = cs := by
  have hafter : ∀ before, lowerAfter before cs = cs := by
    induction cs with
    | nil => intro before; rfl
    | cons c cs ih =>
        intro before
        have hc := h c (by simp)
        simp only [isLowered, Bool.and_eq_true, decide_eq_true_eq, beq_iff_eq] at hc
        have hsigma : c ≠ 'Σ' := by
          rintro rfl
          exact absurd hc.1 (by decide)
        simp only [lowerAfter, hsigma, if_false, lowerChar, hc.1, if_true, hc.2]
        rw [ih (fun c hc => h c (by simp [hc]))]
        rfl
  exact hafter []

/-! ## Numbers -/

theorem ascii_of_mem_repr {n : Nat} {c : Char} (h : c ∈ n.repr.toList) :
    c.isDigit = true := by
  rw [Nat.toList_repr] at h
  exact Nat.isDigit_of_mem_toDigits (by omega) (by omega) h

theorem toNat_lt_of_isDigit {c : Char} (h : c.isDigit = true) : c.toNat < 0x80 := by
  simp only [Char.isDigit, Bool.and_eq_true, decide_eq_true_eq, UInt32.le_iff_toNat_le] at h
  have hle : c.toNat ≤ 57 := h.2
  omega

theorem digit?_of_isDigit {c : Char} (h : c.isDigit = true) :
    digit? c = some (c.toNat - '0'.toNat) := by
  have hc := toNat_lt_of_isDigit h
  revert h
  exact of_ascii (p := fun c => c.isDigit = true → digit? c = some (c.toNat - '0'.toNat)) hc
    (by decide +kernel)

theorem decimalValue_repr (n : Nat) : decimalValue n.repr.toList = n := by
  have hfold : decimalValue n.repr.toList = Nat.ofDigitChars 10 n.repr.toList 0 := by
    rw [decimalValue, Nat.ofDigitChars_eq_foldl]
    refine List.foldl_ext _ _ _ fun m c hc => ?_
    rw [digit?_of_isDigit (ascii_of_mem_repr hc)]
    rfl
  rw [hfold, Nat.toList_repr, Nat.ofDigitChars_ten_toDigits]

end StackLang.Text
