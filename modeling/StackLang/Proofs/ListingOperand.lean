import StackLang.Proofs.Decimal
import StackLang.Proofs.ListingText

/-!
# Operands in listings

Every operand that an instruction can have is read back from its text.
-/

namespace StackLang

open Text

/-- An operand that can be written and read in an instruction of the given kind. -/
def Operand.Readable (m : Mnemonic) : Operand → Prop
  | .label name => m.isJump = true ∧ Listing.isLabelName name.toList = true
  | .reg r => m.isJump = false ∧ r ∈ Register.known
  | .imm value => m.isJump = false ∧ FewDigits value
  | .mem base d => m.isJump = false ∧ base ∈ Register.known ∧ base ≠ .al ∧ FewDigits d

/-! ## Registers -/

namespace Register

theorem ofName?_name {r : Register} (h : r ∈ known) : ofName? r.name = some r := by
  revert r
  decide

theorem isLowered_name {r : Register} (h : r ∈ known) :
    ∀ c ∈ r.name.toList, 'a' ≤ c ∧ c ≤ 'z' ∧ isLowered c = true ∧ isPlain c = true := by
  have hall : known.all (fun r => r.name.toList.all fun c =>
      decide ('a' ≤ c ∧ c ≤ 'z' ∧ isLowered c = true ∧ isPlain c = true)) = true := by
    decide
  intro c hc
  exact of_decide_eq_true (List.all_eq_true.mp (List.all_eq_true.mp hall r h) c hc)

theorem name_ne_nil {r : Register} (h : r ∈ known) : r.name.toList ≠ [] := by
  revert r
  decide

/-- A text that does not start with a small letter names no register. -/
theorem ofName?_eq_none {c : Char} (h : ¬ ('a' ≤ c ∧ c ≤ 'z')) (cs : List Char) :
    ofName? (String.ofList (c :: cs)) = none := by
  refine List.find?_eq_none.mpr fun r hr heq => h ?_
  have hname : r.name.toList = c :: cs := by
    rw [beq_iff_eq.mp heq, String.toList_ofList]
  obtain ⟨hlow, hhigh, -⟩ := isLowered_name hr c (by rw [hname]; simp)
  exact ⟨hlow, hhigh⟩

end Register

/-! ## Numbers -/

theorem isLowered_of_isDigit {c : Char} (h : c.isDigit = true) :
    isLowered c = true ∧ isPlain c = true ∧ ¬ ('a' ≤ c ∧ c ≤ 'z') ∧ c ≠ '-' ∧ c ≠ '+' := by
  have hc := toNat_lt_of_isDigit h
  revert h
  exact of_ascii (p := fun c => c.isDigit = true →
    isLowered c = true ∧ isPlain c = true ∧ ¬ ('a' ≤ c ∧ c ≤ 'z') ∧ c ≠ '-' ∧ c ≠ '+') hc
    (by decide +kernel)

theorem repr_ne_nil (n : Nat) : n.repr.toList ≠ [] := by
  rw [Nat.toList_repr]
  exact Nat.toDigits_ne_nil

theorem isDigit_of_mem_repr {n : Nat} {c : Char} (h : c ∈ n.repr.toList) : isDigit c = true := by
  rw [isDigit, digit?_of_isDigit (ascii_of_mem_repr h)]
  rfl

theorem isDigitRun_repr (n : Nat) : Listing.isDigitRun n.repr.toList = true := by
  simp only [Listing.isDigitRun, Bool.and_eq_true, Bool.not_eq_true', List.isEmpty_eq_false_iff,
    List.all_eq_true]
  exact ⟨repr_ne_nil n, fun c hc => isDigit_of_mem_repr hc⟩

theorem readNumber_repr {value : Int} (h : FewDigits value) (negative : Bool) :
    Listing.readNumber negative value.natAbs.repr.toList =
      .ok (if negative then -(value.natAbs : Int) else value.natAbs) := by
  have hlen : ¬ digitLimit < value.natAbs.repr.toList.length := by
    rw [String.length_toList]
    exact Nat.not_lt.mpr h
  simp only [Listing.readNumber, readDecimal, hlen, if_false, decimalValue_repr]

/-- The sign of a number in its text. -/
def signText (value : Int) : List Char :=
  if value < 0 then ['-'] else []

theorem toList_toString_int (value : Int) :
    (toString value).toList = signText value ++ value.natAbs.repr.toList := by
  rw [Int.toString_eq_repr, Int.repr_eq_if, signText]
  by_cases h : 0 ≤ value
  · have hnat : value.toNat = value.natAbs := by omega
    rw [if_pos h, if_neg (by omega), hnat]
    rfl
  · have hnat : (-value).toNat = value.natAbs := by omega
    rw [if_neg h, if_pos (by omega), hnat, String.toList_append]
    rfl

theorem cutSign_cons {c : Char} (hminus : c ≠ '-') (hplus : c ≠ '+') (cs : List Char) :
    Listing.cutSign (c :: cs) = (false, c :: cs) := by
  unfold Listing.cutSign
  split
  · next heq => exact absurd (List.cons.inj heq).1 hminus
  · next heq => exact absurd (List.cons.inj heq).1 hplus
  · rfl

theorem cutSign_number (value : Int) :
    Listing.cutSign (signText value ++ value.natAbs.repr.toList) =
      (decide (value < 0), value.natAbs.repr.toList) := by
  unfold signText
  by_cases h : value < 0
  · simp [h, Listing.cutSign]
  · obtain ⟨c, cs, hcs⟩ := List.exists_cons_of_ne_nil (repr_ne_nil value.natAbs)
    have hc : c.isDigit = true := ascii_of_mem_repr (n := value.natAbs) (by rw [hcs]; simp)
    obtain ⟨-, -, -, hminus, hplus⟩ := isLowered_of_isDigit hc
    simp only [h, if_false, List.nil_append, hcs, decide_false]
    exact cutSign_cons hminus hplus cs

theorem number_chars (value : Int) : ∀ c ∈ signText value ++ value.natAbs.repr.toList,
    isLowered c = true ∧ isPlain c = true ∧ ¬ ('a' ≤ c ∧ c ≤ 'z') := by
  intro c hc
  rcases List.mem_append.mp hc with hsign | hdigit
  · have hminus : c = '-' := by
      unfold signText at hsign
      split at hsign <;> simp_all
    subst hminus
    decide
  · obtain ⟨hlow, hplain, hletter, -⟩ := isLowered_of_isDigit (ascii_of_mem_repr hdigit)
    exact ⟨hlow, hplain, hletter⟩

theorem ofName?_number (value : Int) :
    Register.ofName? (String.ofList (signText value ++ value.natAbs.repr.toList)) = none := by
  obtain ⟨c, cs, hcs⟩ : ∃ c cs, signText value ++ value.natAbs.repr.toList = c :: cs :=
    List.exists_cons_of_ne_nil (List.append_ne_nil_of_right_ne_nil _ (repr_ne_nil _))
  have hc := (number_chars value c (by rw [hcs]; simp)).2.2
  rw [hcs]
  exact Register.ofName?_eq_none hc cs

/-! ## Memory -/

/-- The displacement of a memory operand in its text. -/
def displacementText (d : Int) : List Char :=
  if d = 0 then [] else (if d < 0 then '-' else '+') :: d.natAbs.repr.toList

theorem toList_text_mem (base : Register) (d : Int) :
    (Operand.mem base d).text.toList =
      '[' :: (base.name.toList ++ (displacementText d ++ [']'])) := by
  have hbrackets (text : String) : (toString text).toList = text.toList := rfl
  unfold displacementText Operand.text
  by_cases hzero : d = 0
  · simp [hzero, hbrackets]
  · by_cases hneg : d < 0
    · simp [hzero, hneg, hbrackets]
    · simp [hzero, hneg, hbrackets]

theorem displacedForm?_repr (base : List Char) (negative : Bool) (n : Nat) :
    Listing.displacedForm? base negative (n.repr.toList ++ [']']) =
      some ⟨base, negative, n.repr.toList⟩ := by
  have hblank : (n.repr.toList ++ [']']).dropWhile isBlank = n.repr.toList ++ [']'] := by
    obtain ⟨c, cs, hcs⟩ := List.exists_cons_of_ne_nil (repr_ne_nil n)
    have hc := isLowered_of_isDigit (ascii_of_mem_repr (n := n) (c := c) (by rw [hcs]; simp))
    simp [hcs, not_isBlank_of_isPlain hc.2.1]
  have hclose : isDigit ']' = false := by decide
  have hclose' : isBlank ']' = false := by decide
  have htake : (n.repr.toList ++ [']']).takeWhile isDigit = n.repr.toList := by
    rw [List.takeWhile_append_of_pos fun c hc => isDigit_of_mem_repr hc]
    simp [hclose]
  unfold Listing.displacedForm?
  simp only [hblank, htake, List.isEmpty_eq_false_iff.mpr (repr_ne_nil n), Bool.false_eq_true,
    if_false, List.drop_left]
  simp [hclose']

/-- The parts of the text of a memory operand. -/
theorem memoryForm?_text {base : Register} (hbase : base ∈ Register.known) (d : Int) :
    Listing.memoryForm? ('[' :: (base.name.toList ++ (displacementText d ++ [']']))) =
      some ⟨base.name.toList, decide (d < 0), if d = 0 then [] else d.natAbs.repr.toList⟩ := by
  have hletter : ∀ c ∈ base.name.toList, ('a' ≤ c && c ≤ 'z') = true := by
    intro c hc
    obtain ⟨hlow, hhigh, -⟩ := Register.isLowered_name hbase c hc
    simp [hlow, hhigh]
  obtain ⟨c, cs, hcs⟩ := List.exists_cons_of_ne_nil (Register.name_ne_nil hbase)
  have hc := (Register.isLowered_name hbase c (by rw [hcs]; simp)).2.2.2
  have hblank (rest : List Char) :
      (base.name.toList ++ rest).dropWhile isBlank = base.name.toList ++ rest := by
    simp [hcs, not_isBlank_of_isPlain hc]
  have htake (mark : Char) (rest : List Char) (hmark : ('a' ≤ mark && mark ≤ 'z') = false) :
      (base.name.toList ++ mark :: rest).takeWhile (fun c => 'a' ≤ c && c ≤ 'z') =
        base.name.toList := by
    rw [List.takeWhile_append_of_pos hletter, List.takeWhile_cons_of_neg (by simp [hmark]),
      List.append_nil]
  have hne := List.isEmpty_eq_false_iff.mpr (Register.name_ne_nil hbase)
  have hmarks : isBlank ']' = false ∧ isBlank '-' = false ∧ isBlank '+' = false := by decide
  unfold displacementText Listing.memoryForm?
  by_cases hzero : d = 0
  · simp only [hzero, if_true, List.nil_append, hblank, htake ']' [] (by decide), hne,
      Bool.false_eq_true, if_false, List.drop_left]
    simp [hmarks.1]
  · by_cases hneg : d < 0
    · simp only [hzero, if_false, hneg, if_true, List.cons_append, hblank,
        htake '-' _ (by decide), hne, Bool.false_eq_true, List.drop_left,
        List.dropWhile_cons_of_neg (by simp [hmarks.2.1] : ¬ isBlank '-' = true),
        displacedForm?_repr, decide_true]
    · simp only [hzero, if_false, hneg, List.cons_append, hblank,
        htake '+' _ (by decide), hne, Bool.false_eq_true, List.drop_left,
        List.dropWhile_cons_of_neg (by simp [hmarks.2.2] : ¬ isBlank '+' = true),
        displacedForm?_repr, decide_false]

theorem signed_natAbs (value : Int) :
    (if decide (value < 0) = true then -(value.natAbs : Int) else value.natAbs) = value := by
  by_cases hneg : value < 0
  · rw [if_pos (decide_eq_true hneg)]
    omega
  · rw [if_neg (by simpa using hneg)]
    omega

theorem readMemory_form {base : Register} (hbase : base ∈ Register.known) (hal : base ≠ .al)
    {d : Int} (hd : FewDigits d) :
    Listing.readMemory ⟨base.name.toList, decide (d < 0),
      if d = 0 then [] else d.natAbs.repr.toList⟩ = .ok (.mem base d) := by
  unfold Listing.readMemory
  rw [String.ofList_toList, Register.ofName?_name hbase]
  split
  · next heq => exact absurd heq (by simp)
  · next heq => exact absurd (Option.some.inj heq) hal
  · next base' _ heq =>
      obtain rfl := Option.some.inj heq
      by_cases hzero : d = 0
      · simp [hzero]
      · simp only [hzero, if_false, List.isEmpty_eq_false_iff.mpr (repr_ne_nil _),
          Bool.false_eq_true, readNumber_repr hd, signed_natAbs]
        rfl

/-! ## Operands -/

theorem displacement_chars (d : Int) : ∀ c ∈ displacementText d ++ [']'],
    isLowered c = true ∧ isPlain c = true := by
  intro c hc
  have hcases : c = '-' ∨ c = '+' ∨ c = ']' ∨ c ∈ d.natAbs.repr.toList := by
    unfold displacementText at hc
    by_cases hzero : d = 0
    · simp_all
    · by_cases hneg : d < 0
      · simp_all
        tauto
      · simp_all
        tauto
  rcases hcases with rfl | rfl | rfl | hdigit
  · decide
  · decide
  · decide
  · obtain ⟨hlow, hplain, -⟩ := isLowered_of_isDigit (ascii_of_mem_repr hdigit)
    exact ⟨hlow, hplain⟩

theorem mem_chars {base : Register} (hbase : base ∈ Register.known) (d : Int) :
    ∀ c ∈ '[' :: (base.name.toList ++ (displacementText d ++ [']'])),
      isLowered c = true ∧ isPlain c = true := by
  intro c hc
  rcases List.mem_cons.mp hc with rfl | hc
  · decide
  rcases List.mem_append.mp hc with hname | hrest
  · exact (Register.isLowered_name hbase c hname).2.2
  · exact displacement_chars d c hrest

/-- Every operand is read back from its text. -/
theorem Operand.readOperand_text {m : Mnemonic} {op : Operand} (h : op.Readable m) :
    Listing.readOperand m op.text.toList = .ok op := by
  cases op with
  | label name => simp [Listing.readOperand, h.1, Operand.text, h.2]
  | reg r =>
      have hlow : lower r.name.toList = r.name.toList :=
        lower_eq_self fun c hc => (Register.isLowered_name h.2 c hc).2.2.1
      simp [Listing.readOperand, h.1, Operand.text, hlow, Register.ofName?_name h.2]
  | imm value =>
      have hlow : lower (signText value ++ value.natAbs.repr.toList) =
          signText value ++ value.natAbs.repr.toList :=
        lower_eq_self fun c hc => (number_chars value c hc).1
      rw [Listing.readOperand, Operand.text, toList_toString_int]
      simp only [h.1, Bool.false_eq_true, if_false, hlow, ofName?_number, cutSign_number,
        isDigitRun_repr, if_true, readNumber_repr h.2, signed_natAbs]
      rfl
  | mem base d =>
      obtain ⟨hjump, hbase, hal, hd⟩ := h
      have hlow := lower_eq_self fun c hc => (mem_chars hbase d c hc).1
      have hname := Register.ofName?_eq_none (c := '[') (by decide)
        (base.name.toList ++ (displacementText d ++ [']']))
      have hrun : Listing.isDigitRun
          ('[' :: (base.name.toList ++ (displacementText d ++ [']']))) = false := by
        have hopen : isDigit '[' = false := by decide
        simp [Listing.isDigitRun, hopen]
      rw [Listing.readOperand, toList_text_mem]
      simp only [hjump, Bool.false_eq_true, if_false, hlow, hname,
        cutSign_cons (c := '[') (by decide) (by decide), hrun, memoryForm?_text hbase d,
        readMemory_form hbase hal hd]

theorem isLabelPart_of_isLabelStart {c : Char} (h : Listing.isLabelStart c = true) :
    Listing.isLabelPart c = true := by
  have hc : c.toNat < 0x80 := by
    simp only [Listing.isLabelStart, Bool.or_eq_true, Bool.and_eq_true, decide_eq_true_eq,
      beq_iff_eq, Char.le_def, UInt32.le_iff_toNat_le] at h
    rcases h with (((h | h) | rfl) | rfl) | rfl
    · exact lt_of_le_of_lt h.2 (by decide)
    · exact lt_of_le_of_lt h.2 (by decide)
    all_goals decide
  revert h
  exact of_ascii (p := fun c => Listing.isLabelStart c = true → Listing.isLabelPart c = true) hc
    (by decide +kernel)

theorem isLabelPart_of_isDigit {c : Char} (h : c.isDigit = true) :
    Listing.isLabelPart c = true := by
  have hc := toNat_lt_of_isDigit h
  revert h
  exact of_ascii (p := fun c => c.isDigit = true → Listing.isLabelPart c = true) hc
    (by decide +kernel)

theorem isPlain_of_isLabelPart {c : Char} (h : Listing.isLabelPart c = true) :
    isPlain c = true := by
  simp only [Listing.isLabelPart, Bool.or_eq_true, beq_iff_eq] at h
  rcases h with (h | rfl) | rfl
  · exact isPlain_of_isWordChar h
  · decide
  · decide

theorem isPlain_of_isLabelName {name : List Char} (h : Listing.isLabelName name = true) :
    name ≠ [] ∧ ∀ c ∈ name, isPlain c = true := by
  cases name with
  | nil => exact absurd h (by decide)
  | cons c cs =>
      simp only [Listing.isLabelName, Bool.and_eq_true, List.all_eq_true] at h
      refine ⟨List.cons_ne_nil _ _, fun c' hc' => ?_⟩
      rcases List.mem_cons.mp hc' with rfl | hc'
      · exact isPlain_of_isLabelPart (isLabelPart_of_isLabelStart h.1)
      · exact isPlain_of_isLabelPart (h.2 c' hc')

/-- The text of an operand is a single word. -/
theorem Operand.text_plain {m : Mnemonic} {op : Operand} (h : op.Readable m) :
    op.text.toList ≠ [] ∧ ∀ c ∈ op.text.toList, isPlain c = true := by
  cases op with
  | label name => exact isPlain_of_isLabelName h.2
  | reg r =>
      exact ⟨Register.name_ne_nil h.2, fun c hc => (Register.isLowered_name h.2 c hc).2.2.2⟩
  | imm value =>
      rw [Operand.text, toList_toString_int]
      exact ⟨List.append_ne_nil_of_right_ne_nil _ (repr_ne_nil _),
        fun c hc => (number_chars value c hc).2.1⟩
  | mem base d =>
      rw [toList_text_mem]
      exact ⟨List.cons_ne_nil _ _, fun c hc => (mem_chars h.2.1 d c hc).2⟩

end StackLang
