import StackLang.Proofs.Relayout
import StackLang.Proofs.Relocation
import StackLang.Proofs.Segmentation

/-!
# Programs one below the other

A line feed ends every token and every comment that can be left open, so two texts with a line feed
between them are scanned each by itself. A program at its end could only be continued by an `else`,
which no program starts with. So the programs stand one after the other in what is read from the
joint text: the lower one further down, its variables in the slots that the joint table has for
them.
-/

namespace StackLang

namespace Scan

/-! ## Before a line feed -/

/-- What follows a text in front of a line feed is what followed it, or the line feed. -/
theorem mem_head?_newline {after rest : List Char} {c : Char}
    (h : c ∈ (after ++ '\n' :: rest).head?) : c ∈ after.head? ∨ c = '\n' := by
  cases after with
  | nil => exact Or.inr (Option.some.inj h).symm
  | cons d after => exact Or.inl h

theorem Filler.before_newline {filler after : List Char} (h : Filler filler after)
    (rest : List Char) : Filler filler (after ++ '\n' :: rest) := by
  cases h with
  | blank hc => exact .blank hc
  | lineComment hbody hafter =>
      exact .lineComment hbody fun c hc => (mem_head?_newline hc).elim (hafter c) id
  | blockComment hbody => exact .blockComment hbody

theorem LongestCut.before_newline {text after : List Char} {l : Lexeme}
    (h : LongestCut text after l) (rest : List Char) :
    LongestCut text (after ++ '\n' :: rest) l where
  spells := h.spells
  word := by
    intro hw c hc
    rcases mem_head?_newline hc with hc | rfl
    · exact h.word hw c hc
    · decide
  numeral := by
    intro hn c hc
    rcases mem_head?_newline hc with hc | rfl
    · exact h.numeral hn c hc
    · decide
  comparison := by
    intro c hc hhead
    have hsame : (text.tail ++ (after ++ '\n' :: rest)).head? = some '=' ↔
        (text.tail ++ after).head? = some '=' := by
      rw [← List.append_assoc]
      cases text.tail ++ after with
      | nil => simp
      | cons d ds => rfl
    rw [if_congr hsame rfl rfl]
    exact h.comparison c hc hhead

/-- A gap or a token that is cut from a text is cut in front of a line feed as well. -/
theorem cut_before_newline {c : Char} {cs : List Char} {piece : Piece} {n : Nat}
    (h : cut c cs = (piece, n)) (hok : ∀ cause, piece ≠ .fault cause) (rest : List Char) :
    cut c (cs.take n ++ (cs.drop n ++ '\n' :: rest)) = (piece, (cs.take n).length) := by
  cases piece with
  | fault cause => exact absurd rfl (hok cause)
  | gap =>
      obtain ⟨_, _, heq, hcut⟩ := cut_of_filler ((filler_of_cut h).before_newline rest)
      cases heq
      exact hcut
  | lexeme l =>
      have hlongest := longestCut_of_cut h
      have hnumber : IsNumeral (c :: cs.take n) → numberPiece (c :: cs.take n) = .lexeme l := by
        intro hn
        obtain ⟨_, _, heq, hcut⟩ := cut_numeral hn (hlongest.numeral hn)
        cases heq
        rw [List.take_append_drop, h] at hcut
        exact (congrArg Prod.fst hcut).symm
      have hslash : c :: cs.take n = ['/'] →
          ∀ d ∈ (cs.drop n ++ '\n' :: rest).head?, d ≠ '/' ∧ d ≠ '*' := by
        intro htext d hd
        obtain ⟨rfl, htake⟩ := List.cons.inj htext
        have hdrop : cs.drop n = cs := by
          nth_rewrite 2 [← List.take_append_drop n cs]
          rw [htake, List.nil_append]
        rw [hdrop] at hd
        rcases mem_head?_newline hd with hd | rfl
        · obtain ⟨rest, rfl⟩ := List.head?_eq_some_iff.mp hd
          have hopens := not_opensComment_of_cut h
          constructor
          · rintro rfl
            exact hopens (Or.inl ⟨rest, rfl⟩)
          · rintro rfl
            exact hopens (Or.inr ⟨rest, rfl⟩)
        · decide
      obtain ⟨_, _, heq, hcut⟩ := cut_of_longestCut (hlongest.before_newline rest) hnumber hslash
      cases heq
      exact hcut

theorem cons_split (c : Char) (cs : List Char) (n : Nat) :
    c :: cs = (c :: cs.take n) ++ cs.drop n := by
  simp

/-- A text that is scanned without a fault is scanned by itself in front of a line feed. -/
theorem scanFrom_newline (filename : String) (mark : Mark) (cs rest : List Char)
    (h : (scanFrom filename mark cs).fault = none) :
    ∃ ts last, (scanFrom filename mark cs).tokens = ts ++ [last] ∧
      scanFrom filename mark (cs ++ '\n' :: rest) =
        ⟨ts ++ (scanFrom filename (mark.advance (cs ++ ['\n'])) rest).tokens,
          (scanFrom filename (mark.advance (cs ++ ['\n'])) rest).fault⟩ := by
  fun_induction scanFrom filename mark cs with
  | case1 mark =>
      have hcut : cut '\n' ([] ++ rest) = (.gap, ([] : List Char).length) := rfl
      exact ⟨[], _, rfl, scanFrom_gap hcut filename mark⟩
  | case2 mark c cs cause n hcut => cases h
  | case3 mark c cs n hcut ih =>
      obtain ⟨ts, last, htokens, hscan⟩ := ih h
      refine ⟨ts, last, htokens, ?_⟩
      rw [cons_split c cs n, List.append_assoc, List.append_assoc, advance_append, ← hscan]
      exact scanFrom_gap (cut_before_newline hcut (by simp) rest) filename mark
  | case4 mark c cs l n hcut ih =>
      obtain ⟨ts, last, htokens, hscan⟩ := ih h
      refine ⟨⟨l, mark.location filename⟩ :: ts, last, congrArg _ htokens, ?_⟩
      have hpiece := scanFrom_lexeme (cut_before_newline hcut (by simp) rest) filename mark
      rw [hscan] at hpiece
      rw [cons_split c cs n, List.append_assoc, List.append_assoc, advance_append]
      exact hpiece

end Scan

/-! ## Further down -/

/-- The place in a text that stands below `upper`, with a line feed between them. -/
def Location.below (upper : List Char) (l : Location) : Location :=
  { l with
    line := l.line + (1 + upper.count '\n' : Nat)
    offset := l.offset + (upper.length + 1 : Nat) }

namespace Mark

def below (upper : List Char) (m : Mark) : Mark :=
  ⟨m.line + (1 + upper.count '\n'), m.column, m.offset + (upper.length + 1),
    m.lineStart + (upper.length + 1)⟩

theorem location_below (upper : List Char) (m : Mark) (filename : String) :
    (m.below upper).location filename = (m.location filename).below upper := by
  simp [below, location, Location.below]

theorem advance_below (upper : List Char) (m : Mark) (cs : List Char) :
    (m.below upper).advance cs = (m.advance cs).below upper := by
  induction cs generalizing m with
  | nil => rfl
  | cons c cs ih =>
      have hnext : (m.below upper).next c = (m.next c).below upper := by
        by_cases hc : c = '\n'
        · simp only [next, if_pos hc, below, Mark.mk.injEq, true_and]
          omega
        · simp only [next, if_neg hc, below, Mark.mk.injEq, true_and, and_true]
          omega
      rw [advance, List.foldl_cons, hnext]
      exact ih (m.next c)

/-- A text below another one starts there. -/
theorem advance_newline (upper : List Char) :
    ({} : Mark).advance (upper ++ ['\n']) = ({} : Mark).below upper := by
  have hplace := Scan.location_advance "" upper
  simp only [location, Scan.locationAfter, Location.mk.injEq, true_and] at hplace
  obtain ⟨hline, -, hoffset⟩ := hplace
  rw [Scan.advance_append, advance, List.foldl_cons, List.foldl_nil, next, if_pos rfl]
  simp only [below, Mark.mk.injEq, true_and]
  omega

end Mark

namespace Scan

/-- Further down, the same tokens are found further down. -/
theorem scanFrom_below (upper : List Char) (filename : String) (mark : Mark) (cs : List Char) :
    (scanFrom filename (mark.below upper) cs).tokens =
        (scanFrom filename mark cs).tokens.map (Token.moved (Location.below upper)) ∧
      ((scanFrom filename mark cs).fault = none →
        (scanFrom filename (mark.below upper) cs).fault = none) := by
  fun_induction scanFrom filename mark cs with
  | case1 mark =>
      rw [scanFrom, Mark.location_below]
      exact ⟨rfl, fun _ => rfl⟩
  | case2 mark c cs cause n hcut =>
      rw [scanFrom, hcut]
      exact ⟨rfl, fun h => absurd h (Option.some_ne_none _)⟩
  | case3 mark c cs n hcut ih =>
      rw [← Mark.advance_below] at ih
      rw [scanFrom, hcut]
      exact ih
  | case4 mark c cs l n hcut ih =>
      rw [← Mark.advance_below] at ih
      rw [scanFrom, hcut, Mark.location_below]
      exact ⟨congrArg _ ih.1, ih.2⟩

end Scan

open Scan

/-- The tokens of two texts with a line feed between them. -/
theorem tokensOf_newline {upper lower filename : String} {ts us : List Token} {last : Token}
    (hupper : tokensOf upper filename = .ok (ts ++ [last]))
    (hlower : tokensOf lower filename = .ok us) :
    tokensOf (upper ++ "\n" ++ lower) filename =
      .ok (ts ++ us.map (Token.moved (Location.below upper.toList))) := by
  obtain ⟨ts', last', htokens, hscan⟩ :=
    scanFrom_newline filename {} upper.toList lower.toList (fault_of_tokensOf hupper)
  have hts : ts' = ts := by
    have heq : ts' ++ [last'] = ts ++ [last] := htokens.symm.trans (scan_of_tokensOf hupper)
    exact (List.append_inj' heq rfl).1
  have hchars : (upper ++ "\n" ++ lower).toList = upper.toList ++ '\n' :: lower.toList := by
    simp
  obtain ⟨hbelow, hfault⟩ := scanFrom_below upper.toList filename {} lower.toList
  have hus : (scanFrom filename {} lower.toList).tokens = us := scan_of_tokensOf hlower
  rw [tokensOf, scan, hchars, hscan, Mark.advance_newline, hbelow,
    hfault (fault_of_tokensOf hlower), hts, hus]

/-! ## Joint tables -/

namespace SlotTable

/-- The table with slots after its own for those of the names that have none in it. -/
def extended (t : SlotTable) (names : List String) : SlotTable :=
  ⟨t.slots ++ (names.filter fun name => !t.contains name).mapIdx
    fun i name => ⟨name, 8 * (t.size + i + 1)⟩⟩

theorem eraseDups_filter (keep : String → Bool) (names : List String) :
    (names.filter keep).eraseDups = names.eraseDups.filter keep := by
  induction names using List.reverseRecOn with
  | nil => rfl
  | append_singleton names name ih =>
      rw [List.filter_append, eraseDups_concat]
      by_cases hkeep : keep name = true
      · rw [List.filter_cons_of_pos hkeep, List.filter_nil, eraseDups_concat, ih]
        by_cases hmem : name ∈ names
        · rw [if_pos hmem, if_pos (List.mem_filter.mpr ⟨hmem, hkeep⟩)]
        · rw [if_neg hmem, if_neg (fun h => hmem (List.mem_filter.mp h).1), List.filter_append,
            List.filter_cons_of_pos hkeep, List.filter_nil]
      · rw [List.filter_cons_of_neg hkeep, List.filter_nil, List.append_nil, ih]
        split
        · rfl
        · rw [List.filter_append, List.filter_cons_of_neg hkeep, List.filter_nil, List.append_nil]

theorem contains_declareAll (names : List String) (name : String) :
    (({} : SlotTable).declareAll names).contains name = decide (name ∈ names) := by
  rw [Bool.eq_iff_iff, decide_eq_true_iff, contains, find?, List.find?_isSome,
    ← List.mem_eraseDups, ← names_inOrder, ← slots_declareAll, List.mem_map]
  simp only [beq_iff_eq]

/-- More names come after the ones that are there, by first appearance. -/
theorem declareAll_extended (ms ns : List String) :
    ({} : SlotTable).declareAll (ms ++ ns) =
      (({} : SlotTable).declareAll ms).extended
        ((({} : SlotTable).declareAll ns).slots.map Slot.name) := by
  have hsize : (({} : SlotTable).declareAll ms).size = ms.eraseDups.length := by
    rw [size, slots_declareAll, ← List.length_map Slot.name, names_inOrder]
  have hnew : (ns.removeAll ms).eraseDups =
      ns.eraseDups.filter fun name => !(({} : SlotTable).declareAll ms).contains name := by
    simp only [contains_declareAll]
    rw [List.removeAll, eraseDups_filter]
    simp only [List.elem_eq_mem]
  have hslots : (({} : SlotTable).declareAll (ms ++ ns)).slots =
      ((({} : SlotTable).declareAll ms).extended
        ((({} : SlotTable).declareAll ns).slots.map Slot.name)).slots := by
    rw [extended, slots_declareAll, slots_declareAll, slots_declareAll, names_inOrder, ← hnew,
      inOrder, List.eraseDups_append, List.mapIdx_append, hsize]
    congr 2
    funext i name
    simp only [Slot.mk.injEq, true_and]
    push_cast
    ring
  cases h : ({} : SlotTable).declareAll (ms ++ ns)
  rw [h] at hslots
  exact congrArg SlotTable.mk hslots

end SlotTable

/-! ## Joint programs -/

/-- The program followed by another one, whose text stands below `upper`. -/
def Program.followedBy (p : Program) (upper : String) (q : Program) : Program :=
  let slots := p.slots.extended (q.slots.slots.map Slot.name)
  ⟨p.location,
    p.statements ++ relocatedAll (Location.below upper.toList) slots.place q.statements, slots⟩

open Grammar

/-- A program derives from all tokens of its text, over any slots that agree with its own. -/
theorem parseSource_derives {source filename : String} {p : Program}
    (h : parseSource source filename = .ok p) :
    ∃ ts last, tokensOf source filename = .ok (ts ++ [last]) ∧ last.isEnd = true ∧
      p.location = ⟨filename, 1, 1, 0⟩ ∧ p.slots = ({} : SlotTable).declareAll (namesOf ts) ∧
      (∀ place, Agrees place p.slots → DerivesProgram place ts p.statements) ∧
      AllNearestElse p.statements := by
  obtain ⟨tokens, htokens, hread⟩ := parseSource_ok h
  obtain ⟨ts, last, rfl, hlast, htexts⟩ := tokensOf_spells htokens
  obtain ⟨c, c', hc, hp⟩ := readTokens_ok hread
  obtain ⟨hrest, hempty, hclosed⟩ := Cursor.of_ofTokens? hc
  obtain ⟨⟨us, hus, hd⟩, hend, hn, hplace, hslots⟩ := Cursor.parseProgram_agrees hclosed hp
  have hnone : ∀ t ∈ us, t.isEnd = false :=
    not_isEnd_of_not_mem (hd _ (agrees_place _)).sentence.not_mem_end
  have htexts : ∀ t ∈ ts, t.isEnd = false := by
    intro t ht
    obtain ⟨text, htext⟩ := htexts t ht
    exact htext.not_isEnd
  obtain rfl := Cursor.reads_to_end hrest htexts hus hnone hend
  refine ⟨us, last, htokens, decide_eq_true hlast, hplace, ?_, hslots ▸ hd, hn⟩
  rw [hslots, hus.slots, hempty]

theorem parseSource_of_derives {source filename : String} {ts : List Token} {last : Token}
    {ss : List Stmt} (htokens : tokensOf source filename = .ok (ts ++ [last]))
    (hlast : last.isEnd = true)
    (hd : DerivesProgram (({} : SlotTable).declareAll (namesOf ts)).place ts ss)
    (hn : AllNearestElse ss) :
    parseSource source filename =
      .ok ⟨⟨filename, 1, 1, 0⟩, ss, ({} : SlotTable).declareAll (namesOf ts)⟩ := by
  obtain ⟨c, hc, hrest, hslots, -⟩ := Cursor.ofTokens?_closed ts hlast
  obtain ⟨c', hreads, hcurrent⟩ := Cursor.exists_reads hrest
  have htable : c'.slots = ({} : SlotTable).declareAll (namesOf ts) := by
    rw [hreads.slots, hslots]
  rw [← htable] at hd
  have hrun := Cursor.parseProgram_complete filename hreads (hcurrent ▸ hlast) hd hn
  simp only [parseSource, htokens, bind, Except.bind, readTokens, hc, hrun, htable]

/-- Whatever slots agree with a table agree with what it extends. -/
theorem agrees_of_extended (ms ns : List String) :
    Agrees (({} : SlotTable).declareAll (ms ++ ns)).place (({} : SlotTable).declareAll ms) := by
  intro name slot h
  rw [SlotTable.declareAll_append]
  exact agrees_place _ name slot (SlotTable.find?_declareAll_of_some h ns)

/-- Two texts that can be read can be read one below the other. The statements of the upper one are
unchanged, those of the lower one are moved down and refer to the joint table, and the table is that
of the upper one with slots after it for the new names of the lower one. -/
theorem parseSource_newline {upper lower filename : String} {p q : Program}
    (hp : parseSource upper filename = .ok p) (hq : parseSource lower filename = .ok q) :
    parseSource (upper ++ "\n" ++ lower) filename = .ok (p.followedBy upper q) ∧
      ∀ r ∈ (p.followedBy upper q).refs,
        (p.followedBy upper q).slots.find? r.name = some ⟨r.name, r.offset⟩ := by
  have hread : parseSource (upper ++ "\n" ++ lower) filename = .ok (p.followedBy upper q) := by
    obtain ⟨ts, last, hts, -, hplace, hslots, hd, hn⟩ := parseSource_derives hp
    obtain ⟨us, last', hus, hlast', -, hslots', hd', hn'⟩ := parseSource_derives hq
    have htokens := tokensOf_newline hts hus
    rw [List.map_append, List.map_singleton, ← List.append_assoc] at htokens
    have hnames : namesOf (ts ++ us.map (Token.moved (Location.below upper.toList))) =
        namesOf ts ++ namesOf us := by
      rw [namesOf_append, namesOf_moved]
    have htable : p.slots.extended (q.slots.slots.map Slot.name) =
        ({} : SlotTable).declareAll
          (namesOf (ts ++ us.map (Token.moved (Location.below upper.toList)))) := by
      rw [hnames, SlotTable.declareAll_extended, hslots, hslots']
    have hjoint : DerivesProgram (({} : SlotTable).declareAll
        (namesOf (ts ++ us.map (Token.moved (Location.below upper.toList))))).place
        (ts ++ us.map (Token.moved (Location.below upper.toList)))
        (p.followedBy upper q).statements := by
      refine .append (hd _ ?_) ?_
      · rw [hslots, hnames]
        exact agrees_of_extended _ _
      · rw [← htable]
        exact (hd' _ (agrees_place _)).relocated
    have hnearest : AllNearestElse (p.followedBy upper q).statements :=
      allNearestElse_append.mpr ⟨hn, (allNearestElse_relocatedAll _ _ _).mpr hn'⟩
    rw [parseSource_of_derives htokens hlast' hjoint hnearest, Program.followedBy, htable, hplace]
  exact ⟨hread, (parseSource_sound hread).statements.refs⟩

/-- An `if` without an `else` and an open comment, above a program with two of its names. -/
def openEnded : String × String :=
  ("x = 1;\nif (x) y = x; // else", "\tz = y;\nreturn x + z;")

theorem parseSource_newline_openEnded :
    ∃ p q r, parseSource openEnded.1 = .ok p ∧ parseSource openEnded.2 = .ok q ∧
      q.slots.slots = [⟨"z", 8⟩, ⟨"y", 16⟩, ⟨"x", 24⟩] ∧
      parseSource (openEnded.1 ++ "\n" ++ openEnded.2) = .ok r ∧
      r.slots.slots = [⟨"x", 8⟩, ⟨"y", 16⟩, ⟨"z", 24⟩] ∧
      r.refs.drop p.refs.length =
        [⟨⟨"<input>", 3, 2, 30⟩, "z", 24⟩, ⟨⟨"<input>", 3, 6, 34⟩, "y", 16⟩,
          ⟨⟨"<input>", 4, 8, 44⟩, "x", 8⟩, ⟨⟨"<input>", 4, 12, 48⟩, "z", 24⟩] := by
  have hcheck : ((parseSource openEnded.1).toOption.any fun p =>
      (parseSource openEnded.2).toOption.any fun q => decide
        (q.slots.slots = [⟨"z", 8⟩, ⟨"y", 16⟩, ⟨"x", 24⟩] ∧
          (p.followedBy openEnded.1 q).slots.slots = [⟨"x", 8⟩, ⟨"y", 16⟩, ⟨"z", 24⟩] ∧
          (p.followedBy openEnded.1 q).refs.drop p.refs.length =
            [⟨⟨"<input>", 3, 2, 30⟩, "z", 24⟩, ⟨⟨"<input>", 3, 6, 34⟩, "y", 16⟩,
              ⟨⟨"<input>", 4, 8, 44⟩, "x", 8⟩, ⟨⟨"<input>", 4, 12, 48⟩, "z", 24⟩])) = true := by
    decide +kernel
  obtain ⟨p, hp, hcheck⟩ := exists_ok_of_any hcheck
  obtain ⟨q, hq, hcheck⟩ := exists_ok_of_any hcheck
  obtain ⟨hslots, hjoint, hrefs⟩ := of_decide_eq_true hcheck
  exact ⟨p, q, _, hp, hq, hslots, (parseSource_newline hp hq).1, hjoint, hrefs⟩

end StackLang
