import StackLang.Proofs.Interruption
import StackLang.Proofs.SoleExpression

/-!
# Texts laid out anew

The tokens of a source can be written down again with anything between them that starts with a blank
and holds only blanks and comments. Scanning finds the same tokens, since a blank ends every token
and a comment that is closed hides nothing after it.
-/

namespace StackLang

namespace Scan

/-! ## Separators -/

/-- A blank or a comment. A comment to the end of the line has its line feed, and a block comment is
closed where it first can be. -/
inductive Spacing where
  | blank (c : Char) (isBlank : c ∈ blanks)
  | lineComment (body : List Char) (oneLine : '\n' ∉ body)
  | blockComment (body : List Char) (closedOnce : ¬ ['*', '/'] <:+: body ++ ['*'])

def Spacing.chars : Spacing → List Char
  | .blank c _ => [c]
  | .lineComment body _ => '/' :: '/' :: (body ++ ['\n'])
  | .blockComment body _ => '/' :: '*' :: (body ++ ['*', '/'])

/-- A blank, and blanks and comments after it. -/
structure Separator where
  first : Char
  first_blank : first ∈ blanks
  rest : List Spacing

namespace Separator

def chars (s : Separator) : List Char :=
  s.first :: s.rest.flatMap Spacing.chars

/-- A separator that may be missing. -/
def optional (s : Option Separator) : List Char :=
  (s.map chars).getD []

end Separator

/-- The texts of tokens, with a separator after each but the last. -/
def relaid (separator : Nat → Separator) : List Token → List Char
  | [] => []
  | [t] => (t.text?.getD "").toList
  | t :: u :: ts =>
    (t.text?.getD "").toList ++
      ((separator 0).chars ++ relaid (fun i => separator (i + 1)) (u :: ts))

theorem Scans.nil (after : List Char) : Scans [] [] after :=
  fun _ _ => ⟨[], rfl, rfl⟩

theorem Scans.spacing (s : Spacing) (after : List Char) : Scans s.chars [] after := by
  cases s with
  | blank c hc => exact .filler (.blank hc)
  | lineComment body hbody =>
      have hcomment : Scans ('/' :: '/' :: body) [] (['\n'] ++ after) :=
        .filler (.lineComment hbody fun c hc => (Option.some.inj hc).symm)
      exact hcomment.append (.filler (.blank (by decide)))
  | blockComment body hbody => exact .filler (.blockComment hbody)

theorem Scans.spacings (spacings : List Spacing) (after : List Char) :
    Scans (spacings.flatMap Spacing.chars) [] after := by
  induction spacings with
  | nil => exact .nil after
  | cons s spacings ih => exact (Scans.spacing s _).append ih

theorem Scans.separator (s : Separator) (after : List Char) : Scans s.chars [] after := by
  have hfirst : Scans [s.first] [] (s.rest.flatMap Spacing.chars ++ after) :=
    .filler (.blank s.first_blank)
  exact hfirst.append (.spacings s.rest after)

theorem Scans.optional (s : Option Separator) (after : List Char) :
    Scans (Separator.optional s) [] after := by
  cases s with
  | none => exact .nil after
  | some s => exact .separator s after

/-! ## Tokens -/

theorem not_isNamePart_of_blank {c : Char} (h : c ∈ blanks) : isNamePart c = false := by
  rw [← Bool.not_eq_true]
  intro hpart
  have hspace := not_isSpace_of_isNamePart hpart
  rw [isSpace_iff.mpr h] at hspace
  cases hspace

/-- The text of a token is scanned as that token in front of a blank. -/
theorem Scans.text {t : Token} {text after : List Char} (hspells : Spells text t.lexeme)
    (hliteral : ∀ value, t.lexeme = .number value → IsLiteral value)
    (hafter : ∀ c ∈ after.head?, c ∈ blanks) :
    Scans (t.text?.getD "").toList [t.lexeme] after := by
  have hends : ∀ c ∈ after.head?, isNamePart c = false :=
    fun c hc => not_isNamePart_of_blank (hafter c hc)
  obtain ⟨l, location⟩ := t
  cases hspells with
  | name hw hkey => exact .name (Spells.name hw hkey |>.isName rfl) hends
  | number hn =>
      change Scans ((Text.writeDecimal? _).getD "").toList _ after
      rw [(hliteral _ rfl).fewDigits.writeDecimal?]
      exact .number (hliteral _ rfl) hends
  | symbol s => exact .symbol s hafter

theorem Scans.relaid {ts : List Token} (separator : Nat → Separator) {after : List Char}
    (htexts : ∀ t ∈ ts, ∃ text, Spells text t.lexeme)
    (hliterals : ∀ t ∈ ts, ∀ value, t.lexeme = .number value → IsLiteral value)
    (hafter : ∀ c ∈ after.head?, c ∈ blanks) :
    Scans (Scan.relaid separator ts) (ts.map Token.lexeme) after := by
  fun_induction Scan.relaid separator ts with
  | case1 => exact .nil after
  | case2 separator t =>
      obtain ⟨text, htext⟩ := htexts t List.mem_cons_self
      exact .text htext (hliterals t List.mem_cons_self) hafter
  | case3 separator t u ts ih =>
      obtain ⟨text, htext⟩ := htexts t List.mem_cons_self
      have hrest := ih (fun v hv => htexts v (List.mem_cons_of_mem t hv))
        (fun v hv => hliterals v (List.mem_cons_of_mem t hv))
      have hblank : ∀ c ∈ ((separator 0).chars ++
          Scan.relaid (fun i => separator (i + 1)) (u :: ts) ++ after).head?, c ∈ blanks := by
        rintro c hc
        cases hc
        exact (separator 0).first_blank
      exact (Scans.text htext (hliterals t List.mem_cons_self) hblank).append
        ((Scans.separator (separator 0) _).append hrest)

theorem Spells.not_isEnd {text : List Char} {t : Token} (h : Spells text t.lexeme) :
    t.isEnd = false := by
  obtain ⟨l, location⟩ := t
  cases h <;> rfl

/-- The tokens of a source are those that texts spell, and the end of the input. -/
theorem tokensOf_spells {source filename : String} {tokens : List Token}
    (h : StackLang.tokensOf source filename = .ok tokens) :
    ∃ ts last, tokens = ts ++ [last] ∧ last.lexeme = .endOfInput ∧
      ∀ t ∈ ts, ∃ text, Spells text t.lexeme := by
  obtain ⟨segments, trail, -, -, hlaid, htokens⟩ :=
    scanFrom_laid filename [] rfl (parted_nil _) (fault_of_tokensOf h)
  rw [← scan_of_tokensOf h]
  refine ⟨segments.map Segment.token, _, htokens, rfl, fun t ht => ?_⟩
  obtain ⟨s, hs, rfl⟩ := List.mem_map.mp ht
  obtain ⟨xs, ys, rfl⟩ := List.append_of_mem hs
  exact ⟨s.text, (Laid.fits hlaid).cutFrom.spells⟩

end Scan

open Scan

/-- The tokens of a source are closed by their end, so only the reader can fail on them. -/
theorem readTokens_error {source filename : String} {tokens : List Token} {lines : List String}
    {f : Failure} (htokens : tokensOf source filename = .ok tokens)
    (h : readTokens tokens lines (·.parseProgram filename) = .error f) :
    ∃ c c' fault, Cursor.ofTokens? tokens = some c ∧
      c.parseProgram filename = .error fault c' ∧ f = fault.failure lines := by
  obtain ⟨ts, last, rfl, hlast, -⟩ := tokensOf_spells htokens
  obtain ⟨c, hc, -⟩ := Cursor.ofTokens?_closed ts (decide_eq_true hlast)
  unfold readTokens at h
  cases hparse : c.parseProgram filename with
  | ok p c' => simp [hc, hparse] at h
  | error fault c' =>
      simp only [hc, hparse, Except.error.injEq] at h
      exact ⟨c, c', fault, hc, hparse, h.symm⟩

/-- Whatever the reader finds wrong with a text, it reports it at a token of the text. -/
theorem readTokens_reports {source filename : String} {tokens : List Token} {lines : List String}
    {f : Failure} (htokens : tokensOf source filename = .ok tokens)
    (h : readTokens tokens lines (·.parseProgram filename) = .error f) :
    ∃ ts t fault blamed d, blamed ∈ tokens ∧
      Grammar.Blames Grammar.ProgramSentence ts t fault blamed ∧
      fault.diagnostic? lines = some d ∧ f = .report d := by
  obtain ⟨c, c', fault, hc, hparse, rfl⟩ := readTokens_error htokens h
  obtain ⟨hrest, -, hclosed⟩ := Cursor.of_ofTokens? hc
  obtain ⟨ts, us, blamed, hreads, -, hblames⟩ :=
    Parse.program_viable c.nestingBound filename hclosed hparse
  have hmem : blamed ∈ tokens := by
    rw [← hrest, hreads.rest, Cursor.rest, ← List.singleton_append, ← List.append_assoc]
    exact List.mem_append_left _ hblames.mem
  have hsome : fault.diagnostic? lines ≠ none :=
    mt (hblames.diagnostic?_eq_none_iff lines).mp (tokensOf_text htokens blamed hmem)
  obtain ⟨d, hd⟩ := Option.ne_none_iff_exists'.mp hsome
  exact ⟨ts, c'.current, fault, blamed, d, hmem, hblames, hd,
    ParseFault.failure_eq_report_iff.mpr hd⟩

/-- However the tokens of a source are laid out anew, scanning yields them again. -/
theorem tokensOf_relaid {source filename : String} {tokens : List Token}
    (h : tokensOf source filename = .ok tokens) (separator : Nat → Separator)
    (lead trail : Option Separator) (filename' : String) :
    ∃ tokens', tokensOf (String.ofList (Separator.optional lead ++
          (relaid separator tokens.dropLast ++ Separator.optional trail))) filename' = .ok tokens' ∧
      tokens'.map Token.lexeme = tokens.map Token.lexeme := by
  obtain ⟨ts, last, rfl, hlast, htexts⟩ := tokensOf_spells h
  rw [List.dropLast_concat]
  have htrail : ∀ c ∈ (Separator.optional trail).head?, c ∈ blanks := by
    cases trail with
    | none => simp [Separator.optional]
    | some s =>
        rintro c hc
        cases hc
        exact s.first_blank
  have hrelaid :
      Scans (relaid separator ts) (ts.map Token.lexeme) (Separator.optional trail ++ []) := by
    rw [List.append_nil]
    exact .relaid separator htexts
      (fun t ht => tokensOf_literal h t (List.mem_append_left _ ht)) htrail
  have hall := (Scans.optional lead _).append (hrelaid.append (Scans.optional trail []))
  obtain ⟨ts', last', hts', hlast', htokens'⟩ := hall.tokensOf filename'
  refine ⟨_, htokens', ?_⟩
  have hend : last'.lexeme = .endOfInput := of_decide_eq_true hlast'
  rw [List.map_append, List.map_append, hts', List.map_singleton, List.map_singleton, hlast, hend]
  simp

/-- Comments that hold openings of comments and texts of tokens, of either kind in turn. -/
def crowded (i : Nat) : Separator where
  first := '\t'
  first_blank := by decide
  rest :=
    if i % 2 = 0 then [.lineComment "/*=".toList (by decide)]
    else [.blockComment "/* //1\n*".toList (by decide), .blank ' ' (by decide)]

def crowdedText : String :=
  "x\t///*=\n<=\t/*/* //1\n**/ 7\t///*=\n/\t/*/* //1\n**/ y\t///*=\n;\t///*=\n"

theorem tokensOf_relaid_crowded :
    ∃ tokens tokens', tokensOf "x<=007/y;" = .ok tokens ∧ tokensOf crowdedText = .ok tokens' ∧
      tokens.map Token.lexeme = [.identifier "x", .symbol .le "<=", .number 7, .symbol .slash "/",
        .identifier "y", .symbol .semicolon ";", .endOfInput] ∧
      tokens'.map Token.lexeme = tokens.map Token.lexeme := by
  have hcheck : ((tokensOf "x<=007/y;").toOption.any fun tokens => decide
      (tokens.map Token.lexeme = [.identifier "x", .symbol .le "<=", .number 7, .symbol .slash "/",
        .identifier "y", .symbol .semicolon ";", .endOfInput] ∧
      String.ofList (Separator.optional none ++
          (relaid crowded tokens.dropLast ++ Separator.optional (some (crowded 6)))) =
        crowdedText)) = true := by
    decide +kernel
  obtain ⟨tokens, htokens, hcheck⟩ := exists_ok_of_any hcheck
  obtain ⟨hlexemes, htext⟩ := of_decide_eq_true hcheck
  obtain ⟨tokens', htokens', hsame⟩ :=
    tokensOf_relaid htokens crowded none (some (crowded 6)) "<input>"
  rw [htext] at htokens'
  exact ⟨tokens, tokens', htokens, htokens', hlexemes, hsame⟩

end StackLang
