import StackLang.Proofs.Compiled

/-!
# Correctness

A compiled program does on the machine what its text means: it returns the value of the program,
stops where the program divides by zero or overflows in a division, and goes on for ever if the
program does. Nothing else can happen to it.
-/

namespace StackLang

/-! ## Runs of a listing -/

/-- The run is cut off by its step limit. -/
def CutOff (l : Listing) (config : MachineConfig) (s : State) : Prop :=
  ∃ s', l.run config none s = .error ⟨.stepLimit config.maxSteps, none⟩ s'

/-- The run returns a value. -/
def Returns (l : Listing) (config : MachineConfig) (s : State) (value : Int) : Prop :=
  ∃ r s', l.run config none s = .ok r s' ∧ r.returnValue = value ∧
    (r.exitStatus : Int) = value % 256

/-- The run stops at a division. -/
def StopsDividing (l : Listing) (config : MachineConfig) (s : State) : Prop :=
  ∃ fault s', l.run config none s = .error fault s' ∧
    (fault.cause = .divisionByZero ∨ fault.cause = .quotientRange)

section

variable {l : Listing} {config : MachineConfig} {s : State}

theorem Returns.not_cutOff {value : Int} (h : Returns l config s value) : ¬ CutOff l config s := by
  rintro ⟨s', hcut⟩
  obtain ⟨r, s'', hrun, -⟩ := h
  rw [hrun] at hcut
  cases hcut

theorem Returns.not_stopsDividing {value : Int} (h : Returns l config s value) :
    ¬ StopsDividing l config s := by
  rintro ⟨fault, s', hstop, -⟩
  obtain ⟨r, s'', hrun, -⟩ := h
  rw [hrun] at hstop
  cases hstop

theorem StopsDividing.not_cutOff (h : StopsDividing l config s) : ¬ CutOff l config s := by
  rintro ⟨s', hcut⟩
  obtain ⟨fault, s'', hrun, hcause⟩ := h
  rw [hrun] at hcut
  cases hcut
  simp at hcause

theorem Returns.unique {v w : Int} (h : Returns l config s v) (h' : Returns l config s w) :
    v = w := by
  obtain ⟨r, s', hrun, hv, -⟩ := h
  obtain ⟨r', s'', hrun', hw, -⟩ := h'
  rw [hrun] at hrun'
  cases hrun'
  exact hv.symm.trans hw

end

/-! ## Runs of a program -/

namespace Installed

variable {p : Program} {o : RoutineOptions} {frame : Int} {l : Listing}

theorem returns (I : Installed p o frame l) {fuel : Nat} {w : Word}
    (hvalue : p.value fuel = some (.ok w)) :
    ∃ n, ∀ config s, (n ≤ config.maxSteps → Returns l config s w.toInt) ∧
      (config.maxSteps < n → CutOff l config s) := by
  obtain ⟨n, hn⟩ := I.concludes fuel
  refine ⟨n, fun config s => ?_⟩
  have hrun := hn config
  rw [hvalue] at hrun
  obtain ⟨τ, hτ, -, hhalted, hrax⟩ := hrun
  refine ⟨fun hle => ?_, fun hlt => ?_⟩
  · have hok := Listing.run_ok I.start (s := s) (hτ.runFor_halted _ _ hhalted hle)
    refine ⟨_, τ, hok, congrArg BitVec.toInt hrax, ?_⟩
    rw [← hrax]
    exact Word.lowByte_toNat _
  · obtain ⟨υ, hυ⟩ := hτ.runFor_cut_of_lt (l.startLabel none) config.maxSteps hlt
    exact ⟨υ, Listing.run_error I.start hυ⟩

theorem stopsDividing (I : Installed p o frame l) {fuel : Nat}
    (hvalue : p.value fuel = some (.error .division)) :
    ∃ n, ∀ config s, (n < config.maxSteps → StopsDividing l config s) ∧
      (config.maxSteps ≤ n → CutOff l config s) := by
  obtain ⟨n, hn⟩ := I.concludes fuel
  refine ⟨n, fun config s => ?_⟩
  have hrun := hn config
  rw [hvalue] at hrun
  obtain ⟨τ, cause, hτ, -, hfails, hcause⟩ := hrun
  refine ⟨fun hlt => ?_, fun hle => ?_⟩
  · obtain ⟨i, υ, -, hυ⟩ := hτ.runFor_fails (l.startLabel none) config.maxSteps hfails hlt
    exact ⟨_, υ, Listing.run_error I.start hυ, hcause⟩
  · rcases Nat.lt_or_eq_of_le hle with hlt | heq
    · obtain ⟨υ, hυ⟩ := hτ.runFor_cut_of_lt (l.startLabel none) config.maxSteps hlt
      exact ⟨υ, Listing.run_error I.start hυ⟩
    · have hcut := hτ.runFor_cut (l.startLabel none) config.maxSteps hfails.1.1
      rw [← heq] at hcut
      exact ⟨τ, Listing.run_error I.start hcut⟩

theorem cutOff (I : Installed p o frame l) (hvalue : p.NeverEnds) (config : MachineConfig)
    (s : State) : CutOff l config s := by
  obtain ⟨n, hn⟩ := I.concludes (config.maxSteps + 1 + nestingAll p.statements)
  have hrun := hn config
  rw [hvalue] at hrun
  obtain ⟨hle, τ, hτ⟩ := hrun
  obtain ⟨υ, hυ⟩ := hτ.runFor_cut_of_lt (l.startLabel none) config.maxSteps
    (by omega : config.maxSteps < n)
  exact ⟨υ, Listing.run_error I.start hυ⟩

/-- Every run returns, stops at a division or is cut off. -/
theorem outcome (I : Installed p o frame l) (config : MachineConfig) (s : State) :
    (∃ value, Returns l config s value ∧ p.EndsWith value) ∨
      (StopsDividing l config s ∧ p.DividesInVain) ∨ CutOff l config s := by
  rcases I.fate with ⟨fuel, w, hvalue⟩ | ⟨fuel, hvalue⟩ | hnever
  · obtain ⟨n, hn⟩ := I.returns hvalue
    rcases Nat.lt_or_ge config.maxSteps n with hlt | hge
    · exact Or.inr (Or.inr ((hn config s).2 hlt))
    · exact Or.inl ⟨_, (hn config s).1 hge, fuel, w, hvalue, rfl⟩
  · obtain ⟨n, hn⟩ := I.stopsDividing hvalue
    rcases Nat.lt_or_ge n config.maxSteps with hlt | hge
    · exact Or.inr (Or.inl ⟨(hn config s).1 hlt, fuel, hvalue⟩)
    · exact Or.inr (Or.inr ((hn config s).2 hge))
  · exact Or.inr (Or.inr (I.cutOff hnever config s))

end Installed

/-! ## Correctness -/

/-- The compiled program returns exactly the value that the program ends with, and the low byte of
it as exit status. -/
theorem returns_iff_endsWith {source filename : String} {p : Program} {o : RoutineOptions}
    (hp : parseSource source filename = .ok p) (ho : o.fault? = none) (hentry : EntryName o.entry)
    (hroom : ∀ r, p.routine o = .ok r → r.frame + 8 * deepest r.code + 16 ≤ 2 ^ 64) :
    ∃ c l, compile source filename o = .ok c ∧ Listing.read c.assembly = .ok l ∧
      ∀ (top : Int) (s : State), top % 16 = 0 →
        (∀ value, (∃ config, config.stackTop = top ∧ Returns l config s value) ↔
          p.EndsWith value) ∧
        ∀ config r s', config.stackTop = top → l.run config none s = .ok r s' →
          Returns l config s r.returnValue := by
  obtain ⟨c, l, hc, hl, -, -, I⟩ := exists_installed hp ho hentry hroom
  refine ⟨c, l, hc, hl, fun top s htop => ⟨fun value => ⟨?_, ?_⟩, ?_⟩⟩
  · rintro ⟨config, -, hreturns⟩
    rcases I.outcome config s with ⟨value', hreturns', hends⟩ | ⟨hstops, -⟩ | hcut
    · rw [hreturns.unique hreturns']
      exact hends
    · exact absurd hstops hreturns.not_stopsDividing
    · exact absurd hcut hreturns.not_cutOff
  · rintro ⟨fuel, w, hvalue, rfl⟩
    obtain ⟨n, hn⟩ := I.returns hvalue
    exact ⟨⟨n + 1, top, by omega, htop⟩, rfl, (hn _ s).1 (by simp)⟩
  · intro config r s' _ hrun
    rcases I.outcome config s with ⟨value, hreturns, -⟩ | ⟨⟨fault, s'', hstops, -⟩, -⟩ | ⟨s'', hcut⟩
    · obtain ⟨r', s'', hrun', hvalue, hstatus⟩ := hreturns
      rw [hrun] at hrun'
      cases hrun'
      exact ⟨r, s', hrun, rfl, by rw [hvalue]; exact hstatus⟩
    · rw [hrun] at hstops
      cases hstops
    · rw [hrun] at hcut
      cases hcut

/-- A text that is a program with the given value and with room on the stack. -/
theorem exists_program (source : String) (fuel : Nat) (value : Except Trap Word)
    (h : ((parseSource source).toOption.any fun p => decide (p.value fuel = some value) &&
      p.routine.toOption.all fun r : Routine =>
        decide (r.frame + 8 * deepest r.code + 16 ≤ 2 ^ 64)) = true) :
    ∃ p, parseSource source = .ok p ∧ p.value fuel = some value ∧
      ∀ r, p.routine = .ok r → r.frame + 8 * deepest r.code + 16 ≤ 2 ^ 64 := by
  obtain ⟨p, hp, hcheck⟩ := exists_ok_of_any h
  simp only [Bool.and_eq_true, decide_eq_true_eq] at hcheck
  refine ⟨p, hp, hcheck.1, fun r hr => ?_⟩
  simpa [hr, Except.toOption] using hcheck.2

def squares : String := "for (n = 3; n; n = n - 1) s = s + n * n; return -s;"

theorem returns_iff_endsWith_squares :
    ∃ p c l config, parseSource squares = .ok p ∧ compile squares = .ok c ∧
      Listing.read c.assembly = .ok l ∧ config.stackTop = -16 ∧ p.EndsWith (-14) ∧
      Returns l config {} (-14) := by
  obtain ⟨p, hp, hvalue, hroom⟩ :=
    exists_program squares 20 (.ok (-14)) (by decide +kernel)
  have hends : p.EndsWith (-14) := ⟨20, _, hvalue, by decide⟩
  obtain ⟨c, l, hc, hl, hruns⟩ :=
    returns_iff_endsWith hp rfl (EntryName.of_head (by decide) (by decide)) hroom
  obtain ⟨config, htop, hreturns⟩ := ((hruns (-16) {} (by decide)).1 (-14)).mpr hends
  exact ⟨p, c, l, config, hp, hc, hl, htop, hends, hreturns⟩

/-- The compiled program stops at a division exactly if the program gets to a division without a
result, is cut off by every step limit exactly if the program never ends, and every run of it
returns, stops at a division or is cut off. -/
theorem stops_iff_dividesInVain {source filename : String} {p : Program} {o : RoutineOptions}
    (hp : parseSource source filename = .ok p) (ho : o.fault? = none) (hentry : EntryName o.entry)
    (hroom : ∀ r, p.routine o = .ok r → r.frame + 8 * deepest r.code + 16 ≤ 2 ^ 64) :
    ∃ c l, compile source filename o = .ok c ∧ Listing.read c.assembly = .ok l ∧
      ∀ (top : Int) (s : State), top % 16 = 0 →
        ((∃ config, config.stackTop = top ∧ StopsDividing l config s) ↔ p.DividesInVain) ∧
        ((∀ config, config.stackTop = top → CutOff l config s) ↔ p.NeverEnds) ∧
        ∀ config, config.stackTop = top →
          (∃ value, Returns l config s value) ∨ StopsDividing l config s ∨ CutOff l config s := by
  obtain ⟨c, l, hc, hl, -, -, I⟩ := exists_installed hp ho hentry hroom
  refine ⟨c, l, hc, hl, fun top s htop => ⟨⟨?_, ?_⟩, ⟨?_, ?_⟩, ?_⟩⟩
  · rintro ⟨config, -, hstops⟩
    rcases I.outcome config s with ⟨value, hreturns, -⟩ | ⟨-, hvain⟩ | hcut
    · exact absurd hstops hreturns.not_stopsDividing
    · exact hvain
    · exact absurd hcut hstops.not_cutOff
  · rintro ⟨fuel, hvalue⟩
    obtain ⟨n, hn⟩ := I.stopsDividing hvalue
    exact ⟨⟨n + 1, top, by omega, htop⟩, rfl, (hn _ s).1 (by simp)⟩
  · intro hcut
    rcases I.fate with ⟨fuel, w, hvalue⟩ | ⟨fuel, hvalue⟩ | hnever
    · obtain ⟨n, hn⟩ := I.returns hvalue
      exact absurd (hcut ⟨n + 1, top, by omega, htop⟩ rfl) ((hn _ s).1 (by simp)).not_cutOff
    · obtain ⟨n, hn⟩ := I.stopsDividing hvalue
      exact absurd (hcut ⟨n + 1, top, by omega, htop⟩ rfl) ((hn _ s).1 (by simp)).not_cutOff
    · exact hnever
  · intro hnever config _
    exact I.cutOff hnever config s
  · intro config _
    rcases I.outcome config s with ⟨value, hreturns, -⟩ | ⟨hstops, -⟩ | hcut
    · exact Or.inl ⟨value, hreturns⟩
    · exact Or.inr (Or.inl hstops)
    · exact Or.inr (Or.inr hcut)

def leastByMinusOne : String := "a = -9223372036854775807 - 1; if (a < 0) a = a / -1; a;"

theorem stops_iff_dividesInVain_least :
    ∃ p c l config, parseSource leastByMinusOne = .ok p ∧ compile leastByMinusOne = .ok c ∧
      Listing.read c.assembly = .ok l ∧ config.stackTop = 32 ∧ p.DividesInVain ∧
      StopsDividing l config {} := by
  obtain ⟨p, hp, hvalue, hroom⟩ :=
    exists_program leastByMinusOne 9 (.error .division) (by decide +kernel)
  obtain ⟨c, l, hc, hl, hruns⟩ :=
    stops_iff_dividesInVain hp rfl (EntryName.of_head (by decide) (by decide)) hroom
  obtain ⟨config, htop, hstops⟩ := (hruns 32 {} (by decide)).1.mpr ⟨9, hvalue⟩
  exact ⟨p, c, l, config, hp, hc, hl, htop, ⟨9, hvalue⟩, hstops⟩

end StackLang
