import StackLang.Proofs.ParseStmt

/-!
# Reading programs

The reader accepts exactly the sentences of the grammar, and the program it yields is the only one
that they derive with every `else` at the nearest `if`.
-/

namespace StackLang

namespace Parse

open Grammar

theorem statements_succ (statement : Parse Stmt) (bound : Nat) (c : Cursor) :
    statements statement (bound + 1) c =
      if c.current.isEnd then .ok [] c
      else
        (do
          let first ← statement
          let rest ← statements statement bound
          return first :: rest : Parse (List Stmt)) c := by
  rw [statements, bind_of_ok (peek_eq c)]
  cases c.current.isEnd <;> rfl

/-- With a bound above the number of tokens, the statements are read up to the end. -/
theorem statements_sound {statement : Parse Stmt} (hs : SoundStmt statement) (bound : Nat)
    {c c' : Cursor} {ss : List Stmt} (hc : c.Closed) (hbound : c.rest.length ≤ bound)
    (h : statements statement bound c = .ok ss c') :
    (∃ ts, Reads c c' ts ∧ ∀ place, Agrees place c'.slots → DerivesProgram place ts ss) ∧
      c'.current.isEnd = true ∧ AllNearestElse ss := by
  induction bound generalizing c ss with
  | zero => simp [Cursor.rest] at hbound
  | succ bound ih =>
      rw [statements_succ] at h
      split at h
      · next hend =>
        cases h
        exact ⟨⟨[], Reads.refl _, fun _ _ => .nil⟩, hend, trivial⟩
      · simp only [bind_ok_iff, pure_ok_iff] at h
        obtain ⟨first, d, hfirst, rest, d', hrest, rfl, rfl⟩ := h
        have hread := hs hc hfirst
        obtain ⟨ts, hts, hd⟩ := hread.derives
        have hpos : 0 < ts.length :=
          List.length_pos_iff.mpr (hd _ (agrees_place d.slots)).ne_nil
        have hlen : d.rest.length ≤ bound := by
          have hrest := congrArg List.length hts.rest
          rw [List.length_append] at hrest
          omega
        obtain ⟨⟨us, hus, hds⟩, hend, hn⟩ := ih (hs.closed hc hfirst) hlen hrest
        refine ⟨⟨ts ++ us, hts.trans hus, fun place hp => ?_⟩, hend, hread.nearest, hn⟩
        exact .cons (hd place (hp.of_reads hus)) (hds place hp)

theorem statements_complete {limit : Nat} {statement : Parse Stmt}
    (hs : CompleteStmt limit statement) {place : String → Int} (bound : Nat) {c c' : Cursor}
    {ts : List Token} {ss : List Stmt} (hd : DerivesProgram place ts ss) (hn : AllNearestElse ss)
    (hlimit : ts.length ≤ limit) (hbound : ts.length ≤ bound) (hreads : Reads c c' ts)
    (hend : c'.current.isEnd = true) (hp : Agrees place c'.slots) :
    statements statement bound c = .ok ss c' := by
  have helse : c'.current.isSymbol .else_ = false := by
    rw [← Bool.not_eq_true]
    intro hsym
    rw [not_isEnd_of_isSymbol hsym] at hend
    cases hend
  induction bound generalizing c ts ss with
  | zero =>
      cases hd with
      | nil => rw [hreads.eq_of_nil]; rfl
      | cons hst _ =>
          have hpos := List.length_pos_iff.mpr hst.ne_nil
          simp only [List.length_append] at hbound
          omega
  | succ bound ih =>
      rw [statements_succ]
      cases hd with
      | nil => rw [hreads.eq_of_nil, hend]; rfl
      | @cons ts s us ss hst hss =>
          simp only [List.length_append] at hlimit hbound
          obtain ⟨d, hd₁, hd₂⟩ := hreads.split
          have hpos : 0 < ts.length := List.length_pos_iff.mpr hst.ne_nil
          have hfirst := hs hst hn.1 (by omega) hd₁ (hp.of_reads hd₂)
            (fun _ => program_follow hss hd₂ helse)
          have hrest := ih hss hn.2 (by omega) (by omega) hd₂
          have hnotEnd := hst.not_isEnd
          obtain ⟨t, vs, rfl, -, -⟩ := stmt_starts hst
          have hno : c.current.isEnd = false := by
            rw [hd₁.current]
            exact hnotEnd t List.mem_cons_self
          rw [hno]
          simp only [Bool.false_eq_true, ↓reduceIte]
          rw [bind_of_ok hfirst, bind_of_ok hrest]
          rfl

end Parse

namespace Cursor

open Grammar Parse

theorem length_rest (c : Cursor) : c.rest.length = c.nestingBound := by
  simp [rest, nestingBound]

/-- Whatever is read as a program up to the end has a derivation, over any slots that agree with
the ones given out. -/
theorem parseProgram_agrees {c c' : Cursor} {filename : String} {p : Program} (hc : c.Closed)
    (h : c.parseProgram filename = .ok p c') :
    (∃ ts, Reads c c' ts ∧
        ∀ place, Agrees place c'.slots → DerivesProgram place ts p.statements) ∧
      c'.current.isEnd = true ∧ AllNearestElse p.statements ∧
      p.location = ⟨filename, 1, 1, 0⟩ ∧ p.slots = c'.slots := by
  unfold parseProgram Parse.program at h
  obtain ⟨body, d, hbody, h⟩ := bind_ok_iff.mp h
  cases h
  obtain ⟨hderives, hend, hn⟩ :=
    statements_sound (statement_sound _) _ hc (length_rest c).le hbody
  exact ⟨hderives, hend, hn, rfl, rfl⟩

theorem parseProgram_sound {c c' : Cursor} {filename : String} {p : Program} (hc : c.Closed)
    (h : c.parseProgram filename = .ok p c') :
    (∃ ts, Reads c c' ts ∧ DerivesProgram c'.slots.place ts p.statements) ∧
      c'.current.isEnd = true ∧ AllNearestElse p.statements ∧
      p.location = ⟨filename, 1, 1, 0⟩ ∧ p.slots = c'.slots := by
  obtain ⟨⟨ts, hts, hd⟩, hends⟩ := parseProgram_agrees hc h
  exact ⟨⟨ts, hts, hd _ (agrees_place _)⟩, hends⟩

/-- Every derivation up to the end of the input is read as a program. -/
theorem parseProgram_complete (filename : String) {c c' : Cursor} {ts : List Token}
    {ss : List Stmt} (hreads : Reads c c' ts) (hend : c'.current.isEnd = true)
    (hd : DerivesProgram c'.slots.place ts ss) (hn : AllNearestElse ss) :
    c.parseProgram filename = .ok ⟨⟨filename, 1, 1, 0⟩, ss, c'.slots⟩ c' := by
  have hlen : ts.length ≤ c.nestingBound := by
    rw [← length_rest, hreads.rest, List.length_append]
    omega
  have hrun := statements_complete (statement_complete _) _ hd hn hlen hlen hreads hend
    (agrees_place _)
  unfold parseProgram Parse.program
  rw [bind_of_ok hrun]
  rfl

/-- The cursor at the first of some tokens, closed by an end of the input. -/
theorem ofTokens?_closed (body : List Token) {last : Token} (hlast : last.isEnd = true) :
    ∃ c, ofTokens? (body ++ [last]) = some c ∧ c.rest = body ++ [last] ∧ c.slots = {} ∧
      c.Closed := by
  cases body with
  | nil =>
      refine ⟨⟨last, [], {}⟩, ?_, rfl, rfl, last, List.mem_singleton_self last, hlast⟩
      simp [ofTokens?, hlast]
  | cons t ts =>
      refine ⟨⟨t, ts ++ [last], {}⟩, ?_, rfl, rfl, last, ?_, hlast⟩
      · simp [ofTokens?, hlast]
      · simp [rest]

/-- Up to an end of the input there is nothing but the tokens before it. -/
theorem reads_to_end {c c' : Cursor} {body ts : List Token} {last : Token}
    (hrest : c.rest = body ++ [last]) (hbody : ∀ t ∈ body, t.isEnd = false)
    (hr : Reads c c' ts) (hts : ∀ t ∈ ts, t.isEnd = false) (hend : c'.current.isEnd = true) :
    ts = body := by
  have heq : ts ++ c'.rest = body ++ [last] := hr.rest.symm.trans hrest
  rw [List.append_eq_append_iff] at heq
  rcases heq with ⟨us, rfl, hus⟩ | ⟨us, rfl, hus⟩
  · cases us with
    | nil => simp
    | cons u us =>
        have hu : c'.current = u := (List.cons.inj hus).1
        have hmem := hbody u (by simp)
        rw [← hu, hend] at hmem
        cases hmem
  · cases us with
    | nil => simp
    | cons u us =>
        have hlen := congrArg List.length hus
        simp [rest] at hlen

/-- The cursor after all tokens before the end. -/
theorem exists_reads {c : Cursor} {body : List Token} {last : Token}
    (hrest : c.rest = body ++ [last]) :
    ∃ c', Reads c c' body ∧ c'.current = last :=
  ⟨⟨last, [], c.slots.declareAll (namesOf body)⟩, ⟨hrest, rfl⟩, rfl⟩

/-- The reader accepts tokens exactly if their classes form a sentence, and then yields the only
tree that they derive with every `else` at the nearest `if`, over the slots of their names. -/
theorem parseProgram_exact (filename : String) (body : List Token) (last : Token)
    (hlast : last.isEnd = true) (hbody : ∀ t ∈ body, t.isEnd = false) :
    ∃ c, ofTokens? (body ++ [last]) = some c ∧
      ((∃ p c', c.parseProgram filename = .ok p c') ↔ ProgramSentence (body.map Token.kind)) ∧
      ∀ p c', c.parseProgram filename = .ok p c' →
        p.location = ⟨filename, 1, 1, 0⟩ ∧ p.slots = ({} : SlotTable).declareAll (namesOf body) ∧
        DerivesProgram p.slots.place body p.statements ∧ AllNearestElse p.statements ∧
        ∀ ss, DerivesProgram p.slots.place body ss → AllNearestElse ss → ss = p.statements := by
  obtain ⟨c, hc, hrest, hslots, hclosed⟩ := ofTokens?_closed body hlast
  have accepted : ∀ p c', c.parseProgram filename = .ok p c' →
      Reads c c' body ∧ c'.current.isEnd = true ∧ DerivesProgram p.slots.place body p.statements ∧
        AllNearestElse p.statements ∧ p.location = ⟨filename, 1, 1, 0⟩ ∧ p.slots = c'.slots := by
    intro p c' h
    obtain ⟨⟨ts, hts, hd⟩, hend, hn, hloc, hps⟩ := parseProgram_sound hclosed h
    have hno := not_isEnd_of_not_mem hd.sentence.not_mem_end
    obtain rfl := reads_to_end hrest hbody hts hno hend
    exact ⟨hts, hend, hps ▸ hd, hn, hloc, hps⟩
  refine ⟨c, hc, ⟨?_, ?_⟩, ?_⟩
  · rintro ⟨p, c', h⟩
    exact (accepted p c' h).2.2.1.sentence
  · intro hsentence
    obtain ⟨c', hr, hcur⟩ := exists_reads hrest
    obtain ⟨ss, hss⟩ := hsentence.derives c'.slots.place rfl
    obtain ⟨ss', hss', hn⟩ := hss.nearest
    exact ⟨_, c', parseProgram_complete filename hr (hcur ▸ hlast) hss' hn⟩
  · intro p c' h
    obtain ⟨hr, hend, hd, hn, hloc, hps⟩ := accepted p c' h
    refine ⟨hloc, by rw [hps, hr.slots, hslots], hd, hn, fun ss hss hns => ?_⟩
    rw [hps] at hss
    have hrun := parseProgram_complete filename hr hend hss hns
    rw [h] at hrun
    injection hrun with hp _
    rw [hp]

/-- The tokens of `if (a) if (b) +(x) = 1 > 2; else -y;`, all at one place. -/
def danglingElse : List Token :=
  [.symbol .if_ "if", .symbol .leftParen "(", .identifier "a", .symbol .rightParen ")",
    .symbol .if_ "if", .symbol .leftParen "(", .identifier "b", .symbol .rightParen ")",
    .symbol .plus "+", .symbol .leftParen "(", .identifier "x", .symbol .rightParen ")",
    .symbol .assign "=", .number 1, .symbol .gt ">", .number 2, .symbol .semicolon ";",
    .symbol .else_ "else", .symbol .minus "-", .identifier "y", .symbol .semicolon ";"].map
    fun l => ⟨l, ⟨"<input>", 1, 1, 0⟩⟩

theorem parseProgram_exact_danglingElse :
    (∀ t ∈ danglingElse, t.isEnd = false) ∧
    ∃ c, ofTokens? (danglingElse ++ [⟨.endOfInput, ⟨"<input>", 1, 1, 0⟩⟩]) = some c ∧
      ((∃ p c', c.parseProgram "<input>" = .ok p c') ↔
        ProgramSentence (danglingElse.map Token.kind)) ∧
      ∀ p c', c.parseProgram "<input>" = .ok p c' →
        p.location = ⟨"<input>", 1, 1, 0⟩ ∧
        p.slots = ({} : SlotTable).declareAll (namesOf danglingElse) ∧
        DerivesProgram p.slots.place danglingElse p.statements ∧ AllNearestElse p.statements ∧
        ∀ ss, DerivesProgram p.slots.place danglingElse ss → AllNearestElse ss →
          ss = p.statements :=
  ⟨by decide, parseProgram_exact "<input>" danglingElse _ rfl (by decide)⟩

end Cursor

end StackLang
