import StackLang.Proofs.ListingRead

/-!
# Listings that were read

What the reader of listings lets through: instructions with operands that the machine knows, labels
that stand at an instruction or at the end, and jumps to labels that are defined.
-/

namespace StackLang

open Text

/-! ## Numbers -/

namespace Text

theorem digit?_lt {c : Char} {n : Nat} (h : digit? c = some n) : n < 10 := by
  unfold digit? at h
  dsimp only at h
  split at h
  · split at h
    · next hrange =>
      simp only [Bool.and_eq_true, decide_eq_true_eq] at hrange
      cases h
      omega
    · cases h
  · obtain ⟨r, -, rfl⟩ := Option.map_eq_some_iff.mp h
    exact Nat.mod_lt _ (by decide)

theorem decimalValue_lt (digits : List Char) : decimalValue digits < 10 ^ digits.length := by
  induction digits using List.reverseRecOn with
  | nil => decide
  | append_singleton digits c ih =>
      have hdigit : (digit? c).getD 0 < 10 := by
        cases h : digit? c with
        | none => decide
        | some n => exact digit?_lt h
      have hvalue : decimalValue (digits ++ [c]) = 10 * decimalValue digits + (digit? c).getD 0 :=
        List.foldl_append
      rw [hvalue, List.length_append, List.length_singleton, Nat.pow_succ]
      omega

end Text

namespace Listing

theorem readNumber_fewDigits {negative : Bool} {digits : List Char} {value : Int}
    (h : readNumber negative digits = .ok value) : FewDigits value := by
  unfold readNumber readDecimal at h
  by_cases hlen : digitLimit < digits.length
  · simp [hlen] at h
  · simp only [hlen, if_false, Except.ok.injEq] at h
    have habs : value.natAbs = decimalValue digits := by
      subst h
      split <;> simp
    have hpow : 10 ^ digits.length ≤ 10 ^ digitLimit :=
      Nat.pow_le_pow_right (by decide) (by omega)
    rw [FewDigits, habs]
    exact (Nat.length_repr_le_iff (by decide)).mpr (lt_of_lt_of_le (decimalValue_lt digits) hpow)

/-! ## Operands -/

theorem mem_known_of_ofName? {name : String} {r : Register} (h : Register.ofName? name = some r) :
    r ∈ Register.known :=
  List.mem_of_find?_eq_some h

theorem readMemory_readable {m : Mnemonic} (hm : m.isJump = false) {f : MemoryForm} {op : Operand}
    (h : readMemory f = .ok op) : op.Readable m := by
  unfold readMemory at h
  split at h
  · cases h
  · cases h
  · next base hal hname =>
    have hbase := mem_known_of_ofName? hname
    have hne : base ≠ .al := by
      rintro rfl
      exact hal rfl
    split at h
    · cases h
      exact ⟨hm, hbase, hne, by unfold FewDigits; decide⟩
    · cases hnumber : readNumber f.negative f.digits with
      | error cause => simp [hnumber, Except.map] at h
      | ok d =>
          simp only [hnumber, Except.map, Except.ok.injEq] at h
          subst h
          exact ⟨hm, hbase, hne, readNumber_fewDigits hnumber⟩

theorem readOperand_readable {m : Mnemonic} {text : List Char} {op : Operand}
    (h : readOperand m text = .ok op) : op.Readable m := by
  unfold readOperand at h
  split at h
  · next hjump =>
    split at h
    · next hname =>
      cases h
      exact ⟨hjump, by rwa [String.toList_ofList]⟩
    · cases h
  · next hjump =>
    have hm : m.isJump = false := by simpa using hjump
    dsimp only at h
    split at h
    · next r hname =>
      cases h
      exact ⟨hm, mem_known_of_ofName? hname⟩
    · split at h
      · cases hnumber : readNumber (cutSign text).1 (cutSign text).2 with
        | error cause => simp [hnumber, Except.map] at h
        | ok value =>
            simp only [hnumber, Except.map, Except.ok.injEq] at h
            subst h
            exact ⟨hm, readNumber_fewDigits hnumber⟩
      · split at h
        · exact readMemory_readable hm h
        · cases h

theorem mapM_readOperand_readable {m : Mnemonic} {texts : List (List Char)} {ops : List Operand}
    (h : texts.mapM (readOperand m) = .ok ops) :
    ops.length = texts.length ∧ ∀ op ∈ ops, op.Readable m := by
  induction texts generalizing ops with
  | nil =>
      cases h
      exact ⟨rfl, by simp⟩
  | cons text texts ih =>
      rw [List.mapM_cons] at h
      cases hfirst : readOperand m text with
      | error cause =>
          rw [hfirst] at h
          cases h
      | ok op =>
          rw [hfirst] at h
          cases hrest : texts.mapM (readOperand m) with
          | error cause =>
              rw [hrest] at h
              cases h
          | ok ops' =>
              rw [hrest] at h
              cases h
              obtain ⟨hlen, hall⟩ := ih hrest
              refine ⟨by simp [hlen], fun op' hop' => ?_⟩
              rcases List.mem_cons.mp hop' with rfl | hop'
              · exact readOperand_readable hfirst
              · exact hall op' hop'

/-- Every instruction that is read could be written and read again. -/
theorem readInstr_readable {raw line : List Char} {i : Instr} (h : readInstr raw line = .ok i) :
    i.Readable := by
  unfold readInstr at h
  dsimp only at h
  split at h
  · cases h
  · next m hm =>
    split at h
    · cases h
    · next hcount =>
      cases hops : (operandTexts (cutWord line).2).mapM (readOperand m) with
      | error cause =>
          rw [hops] at h
          cases h
      | ok ops =>
          rw [hops] at h
          obtain ⟨hlen, hall⟩ := mapM_readOperand_readable hops
          cases hfault : operandFault? m ops with
          | some cause =>
              simp only [bind, Except.bind, hfault] at h
              cases h
          | none =>
              simp only [bind, Except.bind, hfault] at h
              cases h
              exact ⟨List.mem_of_find?_eq_some hm, by simp at hcount; simp [hlen, hcount], hall,
                hfault⟩

/-! ## Lines -/

/-- What every line keeps, as soon as each of the three things that a line can do keeps it. -/
structure Stable (P : Listing → Prop) : Prop where
  label : ∀ {l : Listing} {name : String}, P l → isLabelName name.toList = true →
    l.labels.contains name = false → P { l with labels := l.labels.put name l.instructions.size }
  entry : ∀ {l : Listing} {name : String}, P l → isLabelName name.toList = true →
    P { l with entry := l.entry <|> some name }
  instr : ∀ {l : Listing} {p : PlacedInstr}, P l → p.instr.Readable →
    P { l with instructions := l.instructions.push p }

namespace Stable

variable {P : Listing → Prop} {l l' : Listing}

theorem readLabel (hP : Stable P) {line rest : List Char} (hl : P l)
    (h : readLabel l line = .ok (l', rest)) : P l' := by
  unfold Listing.readLabel at h
  dsimp only at h
  split at h
  · split at h
    · cases h
    · next hname =>
      split at h
      · cases h
      · next hnew =>
        cases h
        exact hP.label hl (by simpa using hname) (Bool.eq_false_iff.mpr hnew)
  · cases h
    exact hl

theorem readDirective (hP : Stable P) {line : List Char} (hl : P l)
    (h : readDirective l line = .ok l') : P l' := by
  unfold Listing.readDirective at h
  dsimp only at h
  repeat' split at h
  all_goals cases h
  · exact hl
  · exact hl
  · next hname => exact hP.entry hl (by simpa using hname)
  · exact hl

theorem readLine (hP : Stable P) {number : Nat} {raw : List Char} (hl : P l)
    (h : readLine l number raw = .ok l') : P l' := by
  unfold Listing.readLine at h
  cases hlabel : Listing.readLabel l (trim (raw.takeWhile (· != '#'))) with
  | error cause =>
      rw [hlabel] at h
      cases h
  | ok pair =>
      obtain ⟨l₁, line⟩ := pair
      have hl₁ := hP.readLabel hl hlabel
      rw [hlabel] at h
      simp only [bind, Except.bind] at h
      split at h
      · cases h
        exact hl₁
      · exact hP.readDirective hl₁ h
      · cases hinstr : readInstr raw line with
        | error cause =>
            rw [hinstr] at h
            cases h
        | ok i =>
            rw [hinstr] at h
            cases h
            exact hP.instr hl₁ (readInstr_readable hinstr)

theorem readLines (hP : Stable P) {number : Nat} {lines : List (List Char)} (hl : P l)
    (h : readLines l number lines = .ok l') : P l' := by
  induction lines generalizing l number with
  | nil =>
      cases h
      exact hl
  | cons raw rest ih =>
      rw [Listing.readLines] at h
      cases hline : Listing.readLine l number raw with
      | error cause => simp [hline] at h
      | ok l₁ =>
          rw [hline] at h
          exact ih (hP.readLine hl hline) h

end Stable

theorem read_eq_ok_iff {text filename : String} {l : Listing} :
    read text filename = .ok l ↔
      readLines { filename := filename } 1 (lines text.toList) = .ok l ∧
        l.danglingJump? = none := by
  unfold read
  cases hlines : readLines { filename := filename } 1 (lines text.toList) with
  | error fault => simp [bind, Except.bind]
  | ok l₁ =>
      simp only [bind, Except.bind]
      cases hjump : l₁.danglingJump? with
      | some fault =>
          simp only [reduceCtorEq, false_iff]
          rintro ⟨h, hnone⟩
          cases h
          simp [hjump] at hnone
      | none =>
          constructor
          · intro h
            cases h
            exact ⟨rfl, hjump⟩
          · rintro ⟨h, -⟩
            exact h

/-- What holds of the listing without lines and is kept by every line holds of what is read. -/
theorem Stable.read {P : Listing → Prop} (hP : Stable P) {text filename : String} {l : Listing}
    (hempty : P { filename := filename }) (h : read text filename = .ok l) : P l :=
  hP.readLines hempty (read_eq_ok_iff.mp h).1

/-! ## Whole listings -/

/-- What holds of a listing while it is read: its instructions can be executed, and its labels
stand within the instructions read so far or right after them. -/
structure Regular (l : Listing) : Prop where
  readable : ∀ p ∈ l.instructions, p.instr.Readable
  label : ∀ name index, l.labels.find? name = some index → 0 ≤ index ∧ index ≤ l.instructions.size

theorem regular_empty (filename : String) : Regular { filename := filename } where
  readable := by simp
  label := by
    intro name index h
    cases h

theorem regular_stable : Stable Regular where
  label := by
    intro l name hl hname hnew
    refine ⟨hl.readable, fun other index hindex => ?_⟩
    by_cases hother : other = name
    · subst hother
      rw [LabelTable.find?_put_self hnew] at hindex
      cases hindex
      exact ⟨by omega, le_rfl⟩
    · rw [LabelTable.find?_put_of_ne hnew hother] at hindex
      exact hl.label other index hindex
  entry := fun hl _ => ⟨hl.readable, hl.label⟩
  instr := by
    intro l p hl hp
    refine ⟨fun q hq => ?_, fun name index hindex => ?_⟩
    · rcases Array.mem_push.mp hq with hq | rfl
      · exact hl.readable q hq
      · exact hp
    · have hold := hl.label name index hindex
      rw [Array.size_push]
      omega

/-- A listing that a machine can run: no instruction needs a register, an operand or a label that
is not there. -/
structure WellFormed (l : Listing) : Prop extends Regular l where
  target : ∀ p ∈ l.instructions, ∀ name, p.instr.target? = some name →
    ∃ index, l.labels.find? name = some index

theorem read_wellFormed {text filename : String} {l : Listing} (h : read text filename = .ok l) :
    l.WellFormed where
  toRegular := regular_stable.read (regular_empty filename) h
  target := by
    intro p hp name hname
    have htargets := danglingJump?_eq_none_iff.mp (read_eq_ok_iff.mp h).2
    have hmem := List.mem_map_of_mem (f := PlacedInstr.instr) (Array.mem_def.mp hp)
    exact Option.isSome_iff_exists.mp (htargets p.instr hmem name hname)

end Listing

end StackLang
