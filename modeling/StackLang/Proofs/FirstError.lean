import StackLang.Proofs.Interruption
import StackLang.Proofs.Lookahead
import StackLang.Proofs.NestingBound
import StackLang.Proofs.Source

/-!
# The first error

The reader of programs stops at the first token that no program could have in its place: the tokens
before it begin a program, and with it they begin none.
-/

namespace StackLang

open Grammar

/-- A token of the class. -/
def Kind.sample (k : Kind) : Token where
  lexeme :=
    match k with
    | .endOfInput => .endOfInput
    | .identifier => .identifier "x"
    | .number => .number 0
    | .symbol s => .symbol s s.spelling
  location := ⟨"<input>", 1, 1, 0⟩

theorem Kind.kind_sample (k : Kind) : k.sample.kind = k := by
  cases k <;> rfl

theorem map_kind_sample (ks : List Kind) : (ks.map Kind.sample).map Token.kind = ks := by
  induction ks with
  | nil => rfl
  | cons k ks ih => rw [List.map_cons, List.map_cons, k.kind_sample, ih]

/-- The tokens are read as a program. -/
def Accepted (filename : String) (tokens : List Token) : Prop :=
  ∃ c p c', Cursor.ofTokens? tokens = some c ∧ c.parseProgram filename = .ok p c'

theorem accepted_of_sentence (filename : String) {body : List Token} {last : Token}
    (hlast : last.isEnd = true) (h : ProgramSentence (body.map Token.kind)) :
    Accepted filename (body ++ [last]) := by
  obtain ⟨c, hc, hrest, -, -⟩ := Cursor.ofTokens?_closed body hlast
  obtain ⟨c', hr, hcur⟩ := Cursor.exists_reads hrest
  obtain ⟨ss, hss⟩ := h.derives c'.slots.place rfl
  obtain ⟨ss', hss', hn⟩ := hss.nearest
  exact ⟨c, _, c', hc, Cursor.parseProgram_complete filename hr (hcur ▸ hlast) hss' hn⟩

/-- What begins a sentence can be completed to tokens that are accepted. -/
theorem exists_accepted (filename : String) {ts : List Token} {us : List Kind} {last : Token}
    (hlast : last.isEnd = true) (h : ProgramSentence (ts.map Token.kind ++ us)) :
    ∃ more, (∀ t ∈ more, t.isEnd = false) ∧ Accepted filename (ts ++ more ++ [last]) := by
  have hkinds : (us.map Kind.sample).map Token.kind = us := map_kind_sample us
  refine ⟨us.map Kind.sample, ?_, accepted_of_sentence filename hlast ?_⟩
  · apply not_isEnd_of_not_mem
    intro hmem
    rw [hkinds] at hmem
    exact h.not_mem_end (List.mem_append_right _ hmem)
  · rw [List.map_append, hkinds]
    exact h

/-- Tokens that begin like ones on which the reader failed, up to the token it failed at, are not
accepted. -/
theorem not_accepted_of_error {filename : String} {tokens : List Token} {c c' : Cursor}
    {fault : ParseFault} {k : Nat} (hc : Cursor.ofTokens? tokens = some c)
    (h : c.parseProgram filename = .error fault c') (hk : k < tokens.length)
    (hc' : c'.rest = tokens.drop k) (more : List Token) :
    ¬ Accepted filename (tokens.take (k + 1) ++ more) := by
  rintro ⟨d, p, d', hd, hp⟩
  obtain ⟨hrest, hslots, hclosed⟩ := Cursor.of_ofTokens? hc
  obtain ⟨hrest', hslots', hclosed'⟩ := Cursor.of_ofTokens? hd
  have hbound : c.rest.length ≤ c.nestingBound + d.nestingBound := by
    rw [Cursor.length_rest]
    omega
  have hbound' : d.rest.length ≤ c.nestingBound + d.nestingBound := by
    rw [Cursor.length_rest]
    omega
  have hfail := (Parse.program_same filename hclosed hbound (Cursor.length_rest c).le).trans h
  have hok := (Parse.program_same filename hclosed' hbound' (Cursor.length_rest d).le).trans hp
  have hne : tokens.take (k + 1) ≠ [] := by
    intro hnil
    have hlen := congrArg List.length hnil
    rw [List.length_take, List.length_nil] at hlen
    omega
  obtain ⟨t, ts, hshared⟩ := List.exists_cons_of_ne_nil hne
  have hahead : Cursor.Shared (tokens.drop (k + 1)) more c d := by
    refine ⟨⟨t, ts, ?_, ?_⟩, hslots.trans hslots'.symm, hclosed, hclosed'⟩
    · rw [hrest, ← hshared, List.take_append_drop]
    · rw [hrest', hshared]
  have hwithin : ¬ c'.Beyond (tokens.drop (k + 1)) := by
    rw [Cursor.Beyond, hc', List.length_drop, List.length_drop]
    omega
  obtain ⟨e, he⟩ := Parse.program_fails hahead hfail hwithin
  rw [hok] at he
  cases he

/-- The tokens of `while (a) { x = 1 + y = 2; }` and the end of the input, each at a column of its
own. -/
def chainedAssignment : List Token :=
  [.symbol .while_ "while", .symbol .leftParen "(", .identifier "a", .symbol .rightParen ")",
    .symbol .leftBrace "\x7b", .identifier "x", .symbol .assign "=", .number 1, .symbol .plus "+",
    .identifier "y", .symbol .assign "=", .number 2, .symbol .semicolon ";",
    .symbol .rightBrace "\x7d", .endOfInput].mapIdx
    fun i l => ⟨l, ⟨"<input>", 1, i + 1, i⟩⟩

/-- A number where no expression can go on, with more digits than can be written. -/
def overlongSecond : List Token :=
  [⟨.number 1, ⟨"<input>", 1, 1, 0⟩⟩, ⟨.number (10 ^ 5000 : Nat), ⟨"<input>", 1, 3, 2⟩⟩,
    ⟨.endOfInput, ⟨"<input>", 1, 5004, 5003⟩⟩]

end StackLang
