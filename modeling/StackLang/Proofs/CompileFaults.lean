import StackLang.Proofs.Compiled

/-!
# Where compiling can fail

The generator has reports of its own: a frame that does not cover a slot, a variable outside the
frame, a form it does not know, an evaluation stack out of balance. No program read from text
brings about any of them. Given valid options, a text that scans and reads is compiled, and what
goes wrong with any other text is told by the scanner or by the reader.
-/

namespace StackLang

open Text

/-! ## Reports of the generator -/

/-- The kinds of problem that the generator reports: a form it does not know, and code of its own
that is not consistent. -/
def Category.OfGenerator (category : Category) : Prop :=
  category = .generation ∨ category = .invariant

theorem ScanFault.failure_not_ofGenerator {f : ScanFault} {filename source : String}
    {d : Diagnostic} (h : f.failure filename source = .report d) : ¬ d.category.OfGenerator := by
  obtain ⟨cause, mark⟩ := f
  cases cause with
  | tooManyDigits excess => cases h
  | unterminatedComment | literalRange | loneBang | invalidCharacter =>
      obtain rfl := Failure.report.inj h
      rintro (hcategory | hcategory) <;> cases hcategory

theorem ParseFault.failure_not_ofGenerator {f : ParseFault} {lines : List String} {d : Diagnostic}
    (h : f.failure lines = .report d) : ¬ d.category.OfGenerator := by
  have hd := ParseFault.failure_eq_report_iff.mp h
  cases f with
  | unexpected | assignmentTarget =>
      obtain ⟨text, -, rfl⟩ := Option.map_eq_some_iff.mp hd
      rintro (hcategory | hcategory) <;> cases hcategory

theorem tokensOf_not_ofGenerator {source filename : String} {d : Diagnostic}
    (h : tokensOf source filename = .error (.report d)) : ¬ d.category.OfGenerator := by
  unfold tokensOf at h
  cases hfault : (scan source filename).fault with
  | none => simp [hfault] at h
  | some f =>
      simp only [hfault, Except.error.injEq] at h
      exact f.failure_not_ofGenerator h

theorem readTokens_not_ofGenerator {α : Type} {tokens : List Token} {lines : List String}
    {parse : Cursor → EStateM.Result ParseFault Cursor α} {d : Diagnostic}
    (h : readTokens tokens lines parse = .error (.report d)) : ¬ d.category.OfGenerator := by
  unfold readTokens at h
  cases hcursor : Cursor.ofTokens? tokens with
  | none => simp [hcursor, Failure.missingEnd] at h
  | some cursor =>
      cases hparse : parse cursor with
      | ok a c => simp [hcursor, hparse] at h
      | error f c =>
          simp only [hcursor, hparse, Except.error.injEq] at h
          exact f.failure_not_ofGenerator h

/-! ## The numbers of a routine -/

/-- A program has no more slots than its text has tokens. -/
theorem size_slots_le {tokens : List Token} {lines : List String} {filename : String} {p : Program}
    (h : readTokens tokens lines (·.parseProgram filename) = .ok p) :
    p.slots.size ≤ tokens.length := by
  obtain ⟨c, c', hc, hp⟩ := readTokens_ok h
  obtain ⟨ts, hfront, htable, -⟩ := Cursor.parseProgram_derives hc hp
  calc p.slots.size
    _ ≤ (namesOf ts).length := by
      rw [htable]
      simpa [SlotTable.size] using SlotTable.size_declareAll_le {} (namesOf ts)
    _ ≤ ts.length := List.length_filterMap_le _ _
    _ ≤ tokens.length := hfront.length_le

/-- With an alignment of at most 4000 digits the size of the frame can be written. -/
theorem Housed.fewDigits_frame {p : Program} {o : RoutineOptions} {frame : Int}
    (H : Housed p o frame) (hsize : p.slots.size < 10 ^ 4000)
    (halign : o.alignment < 10 ^ 4000) : FewDigits frame := by
  have hlt := SlotTable.frameSize?_lt H.alignment H.frame
  have hnonneg := H.frame_nonneg
  have hbound : frame.natAbs < 10 * 10 ^ 4000 := by
    zify [wordSize] at hsize hlt ⊢
    rw [abs_of_nonneg hnonneg]
    generalize (10 : Int) ^ 4000 = bound at *
    omega
  have hpow : ∀ k < digitLimit, 10 * 10 ^ k ≤ 10 ^ digitLimit := by
    intro k hk
    rw [← Nat.pow_succ']
    exact Nat.pow_le_pow_right (by decide) hk
  exact (Nat.length_repr_le_iff (by decide)).mpr (hbound.trans_le (hpow 4000 (by decide)))

/-! ## Compiling -/

/-- No text makes the generator fail. A text that scans and reads is compiled for all valid
options: nothing in its program offends against the frame, the routine is made, and its numbers
can be written. If a text is not compiled, the report is none of the generator's. -/
theorem compile_spares_generator {source filename : String} {o : RoutineOptions}
    (ho : o.fault? = none) :
    (∀ tokens p, tokensOf source filename = .ok tokens →
      readTokens tokens (sourceLines source) (·.parseProgram filename) = .ok p →
      ∃ r, compile source filename o = .ok ⟨filename, tokens, p, r⟩ ∧
        p.routine o = .ok r ∧ p.offences r.frame = [] ∧
        (o.alignment < 10 ^ 4000 → tokens.length < 10 ^ 4000 → FewDigits r.frame)) ∧
    ∀ d, compile source filename o = .error (.report d) → ¬ d.category.OfGenerator := by
  have hcompiled : ∀ {tokens p}, tokensOf source filename = .ok tokens →
      readTokens tokens (sourceLines source) (·.parseProgram filename) = .ok p →
      ∃ frame, Housed p o frame := by
    intro tokens p htokens hread
    have hp : parseSource source filename = .ok p := by
      simp only [parseSource, htokens, bind, Except.bind, hread]
    exact (parseSource_sound hp).exists_housed ho
  constructor
  · intro tokens p htokens hread
    obtain ⟨frame, H⟩ := hcompiled htokens hread
    obtain ⟨_, -, hoffences, hr⟩ := Program.exists_frame_of_routine H.routine
    refine ⟨_, compile_ok ho htokens hread H.routine, H.routine, ?_, fun halign hlength => ?_⟩
    · rw [Routine.mk.injEq] at hr
      rw [hr.2.2]
      exact hoffences
    · exact H.fewDigits_frame ((size_slots_le hread).trans_lt hlength) halign
  · intro d hd
    cases htokens : tokensOf source filename with
    | error f =>
        simp only [compile, ho, compileWithEvents, htokens, Except.error.injEq] at hd
        subst hd
        exact tokensOf_not_ofGenerator htokens
    | ok tokens =>
        cases hread : readTokens tokens (sourceLines source) (·.parseProgram filename) with
        | error f =>
            simp only [compile, ho, compileWithEvents, htokens, hread, Except.error.injEq] at hd
            subst hd
            exact readTokens_not_ofGenerator hread
        | ok p =>
            obtain ⟨frame, H⟩ := hcompiled htokens hread
            rw [compile_ok ho htokens hread H.routine] at hd
            cases hd

def steppedDown : String := "for (i = 9; i; i = i - (j = 2)) k = k * i + j; return k / i;"

/-- A name that is no label and an alignment that is no power of two are valid. -/
def unusual : RoutineOptions := { entry := "no label", comments := true, alignment := 40 }

theorem compile_spares_generator_steppedDown :
    unusual.fault? = none ∧
    ∃ tokens p r, tokensOf steppedDown = .ok tokens ∧ p.slots.size = 3 ∧
      compile steppedDown "<input>" unusual = .ok ⟨"<input>", tokens, p, r⟩ ∧
      p.routine unusual = .ok r ∧ p.offences r.frame = [] ∧ FewDigits r.frame := by
  refine ⟨by decide, ?_⟩
  have hcheck : ((tokensOf steppedDown).toOption.any fun tokens =>
      (readTokens tokens (sourceLines steppedDown) (·.parseProgram "<input>")).toOption.any
        fun p => decide (p.slots.size = 3 ∧ tokens.length < 4000)) = true := by
    decide +kernel
  obtain ⟨tokens, htokens, hcheck⟩ := exists_ok_of_any hcheck
  obtain ⟨p, hread, hcheck⟩ := exists_ok_of_any hcheck
  obtain ⟨hsize, hlength⟩ := of_decide_eq_true hcheck
  obtain ⟨r, hcompile, hr, hoffences, hdigits⟩ :=
    (compile_spares_generator (o := unusual) (by decide)).1 tokens p htokens hread
  have hpow : ∀ k, k < 10 ^ k := fun k => Nat.lt_pow_self (by decide)
  refine ⟨tokens, p, r, htokens, hsize, hcompile, hr, hoffences,
    hdigits ?_ (hlength.trans (hpow 4000))⟩
  calc unusual.alignment
    _ < (4000 : Nat) := by decide
    _ < (10 ^ 4000 : Nat) := Int.ofNat_lt.mpr (hpow 4000)
    _ = 10 ^ 4000 := Nat.cast_pow 10 4000

end StackLang
