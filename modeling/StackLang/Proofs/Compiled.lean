import StackLang.Proofs.CodeText
import StackLang.Proofs.RoutineRun
import StackLang.Proofs.Source

/-!
# Compiled programs

Every program read from text has a routine. Its text is a listing that starts at the routine, and
the activation that it sets up holds the variables of the program.
-/

namespace StackLang

open Text

/-! ## Compiling -/

theorem RoutineOptions.alignment_pos {o : RoutineOptions} (h : o.fault? = none) :
    0 < o.alignment := by
  unfold fault? at h
  by_contra hneg
  by_cases hempty : o.entry.isEmpty = true
  · simp [hempty] at h
  · have hle : o.alignment ≤ 0 := by omega
    simp [hempty, hle] at h

/-- A program whose variables refer to slots in sequence has a routine. -/
theorem Program.routine_of_places {p : Program} {o : RoutineOptions} {frame : Int}
    {N : Int → Prop} (hslots : p.slots.Sequential)
    (hall : AllStmts p.slots.Places N p.statements) (halign : 0 < o.alignment)
    (hframe : p.slots.frameSize? o.alignment = some frame) :
    p.routine o = .ok ⟨p.code o frame, labelCountAll p.statements, frame⟩ := by
  refine p.routine_ok hframe (fun _ h => (hslots.offset_inFrame halign hframe h).2)
    (hall.mono (fun r hr => ?_) fun _ h => h)
  exact hslots.offset_inFrame halign hframe (SlotTable.mem_slots_of_find? hr)

/-- A sound program, a valid alignment and the frame they need. -/
structure Housed (p : Program) (o : RoutineOptions) (frame : Int) : Prop where
  sound : p.Sound
  alignment : 0 < o.alignment
  frame : p.slots.frameSize? o.alignment = some frame

namespace Housed

variable {p : Program} {o : RoutineOptions} {frame : Int}

theorem frame_nonneg (H : Housed p o frame) : 0 ≤ frame := by
  have hcovers := (SlotTable.frameSize?_covers H.alignment H.frame).1
  omega

theorem offset_mem (H : Housed p o frame) {slot : Slot} (h : slot ∈ p.slots.slots) :
    0 < slot.offset ∧ slot.offset ≤ frame :=
  H.sound.sequential.offset_inFrame H.alignment H.frame h

/-- There is a frame exactly if there are slots, so the prologue is as long for every alignment. -/
theorem bodyStart_eq (H : Housed p o frame) : bodyStart frame = bodyStart p.slots.size := by
  simp only [bodyStart, SlotTable.frameSize?_eq_zero_iff H.alignment H.frame, Nat.cast_eq_zero]

theorem inFrame (H : Housed p o frame) (r : VarRef) (h : p.slots.Places r) : r.InFrame frame :=
  H.offset_mem (SlotTable.mem_slots_of_find? h)

theorem routine (H : Housed p o frame) :
    p.routine o = .ok ⟨p.code o frame, labelCountAll p.statements, frame⟩ :=
  p.routine_of_places H.sound.sequential H.sound.statements H.alignment H.frame

end Housed

theorem Program.Sound.exists_housed {p : Program} (h : p.Sound) {o : RoutineOptions}
    (ho : o.fault? = none) : ∃ frame, Housed p o frame :=
  ⟨_, h, RoutineOptions.alignment_pos ho,
    p.slots.frameSize?_of_pos (RoutineOptions.alignment_pos ho)⟩

theorem compile_ok {source filename : String} {o : RoutineOptions} {tokens : List Token}
    {p : Program} {r : Routine} (ho : o.fault? = none)
    (htokens : tokensOf source filename = .ok tokens)
    (hread : readTokens tokens (sourceLines source) (·.parseProgram filename) = .ok p)
    (hr : p.routine o = .ok r) : compile source filename o = .ok ⟨filename, tokens, p, r⟩ := by
  have hgenerate : generate p o = .ok r := by
    rw [generate, hr]
    rfl
  simp only [compile, ho, compileWithEvents, htokens, hread, hgenerate]

/-- What compiling makes of a text that can be read. -/
theorem compile_of_parseSource {source filename : String} {p : Program} {o : RoutineOptions}
    (hp : parseSource source filename = .ok p) (ho : o.fault? = none) :
    ∃ c frame, compile source filename o = .ok c ∧ Housed p o frame ∧ c.program = p ∧
      c.routine = ⟨p.code o frame, labelCountAll p.statements, frame⟩ := by
  obtain ⟨tokens, htokens, hread⟩ := parseSource_ok hp
  obtain ⟨frame, H⟩ := (parseSource_sound hp).exists_housed ho
  exact ⟨_, frame, compile_ok ho htokens hread H.routine, H, rfl, rfl⟩

/-- A text that can be compiled can be read. -/
theorem parseSource_of_compile {source filename : String} {o : RoutineOptions} {c : Compilation}
    (h : compile source filename o = .ok c) :
    parseSource source filename = .ok c.program ∧ o.fault? = none := by
  unfold compile at h
  cases ho : o.fault? with
  | some fault => simp [ho] at h
  | none =>
      refine ⟨?_, rfl⟩
      simp only [ho, compileWithEvents] at h
      cases htokens : tokensOf source filename with
      | error f => simp [htokens] at h
      | ok tokens =>
          simp only [htokens] at h
          cases hread : readTokens tokens (sourceLines source) (·.parseProgram filename) with
          | error f => simp [hread] at h
          | ok p =>
              simp only [hread] at h
              cases hgenerate : generate p o with
              | error f => simp [hgenerate] at h
              | ok r =>
                  simp only [hgenerate, Except.ok.injEq] at h
                  subst h
                  simp only [parseSource, htokens, bind, Except.bind, hread]

/-- A compilation holds the routine of its program, in the frame that this needs. -/
theorem Compilation.exists_housed {source filename : String} {o : RoutineOptions} {c : Compilation}
    (hc : compile source filename o = .ok c) :
    ∃ frame, Housed c.program o frame ∧
      c.routine = ⟨c.program.code o frame, labelCountAll c.program.statements, frame⟩ := by
  obtain ⟨hp, ho⟩ := parseSource_of_compile hc
  obtain ⟨c', frame, hc', H, -, hroutine⟩ := compile_of_parseSource hp ho
  obtain rfl : c = c' := Except.ok.inj (hc.symm.trans hc')
  exact ⟨frame, H, hroutine⟩

/-! ## Loading -/

theorem EntryName.isEmpty {name : String} (h : EntryName name) : name.isEmpty = false := by
  rw [Bool.eq_false_iff, ne_eq, String.isEmpty_iff]
  rintro rfl
  exact (isPlain_of_isLabelName h.legal).1 rfl

/-- A run starts at the label it names, and else at the one that the listing names. -/
theorem EntryName.startLabel {name : String} (h : EntryName name) {l : Listing}
    (entry : Option String) (hstart : entry.or l.entry = some name) :
    l.startLabel entry = name := by
  cases entry with
  | none =>
      have hlisting : l.entry = some name := hstart
      simp [Listing.startLabel, hlisting, Option.filter, h.isEmpty]
  | some asked =>
      obtain rfl : asked = name := Option.some.inj hstart
      simp [Listing.startLabel, Option.filter, h.isEmpty]

/-- A routine starts where its name stands. -/
theorem Program.entry_label (p : Program) {o : RoutineOptions} {frame : Int} {l : Listing}
    (h : Loaded l (p.code o frame)) : l.labels.find? o.entry = some 0 := by
  have hlabel : Stands (p.code o frame) 0 (Emission.label o.entry :: _) :=
    ⟨[⟨0, .intelDirective⟩, ⟨0, .global o.entry⟩], _, rfl, rfl⟩
  exact h.label 0 o.entry _ hlabel

namespace Housed

variable {p : Program} {o : RoutineOptions} {frame : Int}

theorem readableCode (H : Housed p o frame) (hentry : EntryName o.entry)
    (hframe : FewDigits frame) : ReadableCode (p.code o frame) := by
  refine p.readableCode hentry hframe
    (H.sound.statements.mono (fun r hr => hframe.mono ?_) fun v hv => fewDigits_of_lt ?_)
  · have hinside := H.inFrame r hr
    have hpos := hinside.1
    have hle := hinside.2
    omega
  · have hle := hv.2
    have hnonneg := hv.1
    simp only [Scan.largestLiteral] at hle
    omega

/-- The text of the routine is a listing of its code that starts with it. -/
theorem exists_listing (H : Housed p o frame) (hentry : EntryName o.entry)
    (hframe : FewDigits frame) (filename : String) :
    ∃ l, Listing.read (Routine.mk (p.code o frame) (labelCountAll p.statements) frame).text
        filename = .ok l ∧
      Loaded l (p.code o frame) ∧ l.entry = some o.entry := by
  have hcode := H.readableCode hentry hframe
  exact ⟨_, hcode.read_text _ _ filename, hcode.loaded filename,
    p.entry_afterCode o frame filename⟩

end Housed

/-- A routine in a listing that starts with it, on a stack that has room for it. -/
structure Installed (p : Program) (o : RoutineOptions) (frame : Int) (l : Listing) : Prop where
  housed : Housed p o frame
  room : frame + 8 * deepest (p.code o frame) + 16 ≤ 2 ^ 64
  loaded : Loaded l (p.code o frame)
  start : l.labels.find? (l.startLabel none) = some 0

namespace Installed

variable {p : Program} {o : RoutineOptions} {frame : Int} {l : Listing}

/-- The activation that the routine sets up below the top of the stack. -/
def activation (I : Installed p o frame l) (top : Int) : Activation where
  base := Word.ofInt (top - 16)
  size := frame
  depth := deepest (p.code o frame)
  caller := [0, Exec.haltAddress]
  owns := p.slots.Places
  owns_inside := I.housed.inFrame
  size_nonneg := I.housed.frame_nonneg
  fits := I.room

theorem layout (I : Installed p o frame l) (top : Int) :
    (I.activation top).Layout VarRef.name p.slots.Places where
  owned := fun _ h => h
  separate := fun _ _ hr hr' => (I.housed.sound.sequential.offset_eq_iff hr hr').symm

/-- The run of the listing, by the value of the program. The steps are the same in number wherever
the program is installed. -/
theorem concludes_of_sound (hp : p.Sound) (fuel : Nat) :
    ∃ n, ∀ {o : RoutineOptions} {frame : Int} {l : Listing} (I : Installed p o frame l)
      (config : MachineConfig),
      (I.activation config.stackTop).Concludes l (p.code o frame) (p.home o frame)
        (fuel - nestingAll p.statements) n (Listing.startState config 0) (p.value fuel) := by
  obtain ⟨n, hn⟩ := p.runs hp.statements fuel
  refine ⟨bodyStart p.slots.size + n, fun {o frame l} I config => ?_⟩
  rw [← I.housed.bodyStart_eq]
  exact hn config (I.layout config.stackTop) ⟨I.loaded, le_refl _⟩ rfl rfl

theorem concludes (I : Installed p o frame l) (fuel : Nat) :
    ∃ n, ∀ config : MachineConfig,
      (I.activation config.stackTop).Concludes l (p.code o frame) (p.home o frame)
        (fuel - nestingAll p.statements) n (Listing.startState config 0) (p.value fuel) := by
  obtain ⟨n, hn⟩ := concludes_of_sound I.housed.sound fuel
  exact ⟨n, hn I⟩

/-- A program ends with a value, or divides in vain, or never ends. -/
theorem fate (I : Installed p o frame l) :
    (∃ fuel w, p.value fuel = some (.ok w)) ∨ p.DividesInVain ∨ p.NeverEnds := by
  by_cases hends : ∃ fuel r, p.value fuel = some r
  · obtain ⟨fuel, r, hr⟩ := hends
    cases r with
    | ok w => exact Or.inl ⟨fuel, w, hr⟩
    | error t =>
        cases t with
        | division => exact Or.inr (Or.inl ⟨fuel, hr⟩)
        | formless =>
            obtain ⟨n, hn⟩ := I.concludes fuel
            have hrun := hn {}
            rw [hr] at hrun
            exact hrun.elim
  · refine Or.inr (Or.inr fun fuel => ?_)
    cases hvalue : p.value fuel with
    | none => rfl
    | some r => exact absurd ⟨fuel, r, hvalue⟩ hends

end Installed

/-- A program text, compiled, written as a listing and read again. -/
theorem Compilation.exists_installed {source filename : String} {o : RoutineOptions}
    {c : Compilation} (hc : compile source filename o = .ok c) (hentry : EntryName o.entry)
    (hroom : c.routine.frame + 8 * deepest c.routine.code + 16 ≤ 2 ^ 64) :
    ∃ l, Listing.read c.assembly = .ok l ∧
      c.routine.code = c.program.code o c.routine.frame ∧
      Installed c.program o c.routine.frame l := by
  obtain ⟨frame, H, hroutine⟩ := Compilation.exists_housed hc
  have hfits : frame + 8 * deepest (c.program.code o frame) + 16 ≤ 2 ^ 64 := by
    rwa [hroutine] at hroom
  have hframe : FewDigits frame := by
    have hnonneg := H.frame_nonneg
    exact fewDigits_of_lt (by omega)
  obtain ⟨l, hl, hloaded, hlisting⟩ := H.exists_listing hentry hframe "<listing>"
  rw [Compilation.assembly, hroutine]
  refine ⟨l, hl, rfl, H, hfits, hloaded, ?_⟩
  rw [hentry.startLabel none hlisting]
  exact c.program.entry_label hloaded

/-- The same, from the program that the text holds. -/
theorem exists_installed {source filename : String} {p : Program} {o : RoutineOptions}
    (hp : parseSource source filename = .ok p) (ho : o.fault? = none) (hentry : EntryName o.entry)
    (hroom : ∀ r, p.routine o = .ok r → r.frame + 8 * deepest r.code + 16 ≤ 2 ^ 64) :
    ∃ c l, compile source filename o = .ok c ∧ Listing.read c.assembly = .ok l ∧
      c.program = p ∧ c.routine.code = p.code o c.routine.frame ∧
      Installed p o c.routine.frame l := by
  obtain ⟨c, frame, hc, H, rfl, hroutine⟩ := compile_of_parseSource hp ho
  have hfits : c.routine.frame + 8 * deepest c.routine.code + 16 ≤ 2 ^ 64 := by
    rw [hroutine]
    exact hroom _ H.routine
  obtain ⟨l, hl, hcode, I⟩ := Compilation.exists_installed hc hentry hfits
  exact ⟨c, l, hc, hl, rfl, hcode, I⟩

end StackLang
