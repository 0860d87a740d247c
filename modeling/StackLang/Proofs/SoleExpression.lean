import StackLang.Proofs.Rescan

/-!
# Expressions read from text

A text that holds a single expression is read like the expressions of a program. Whatever is read
from a text can be written down again: its names are names of the language, its numbers are
literals, and its slots lie below the frame pointer.
-/

namespace StackLang

/-! ## Names -/

namespace Scan

theorem Spells.isName {text : List Char} {l : Lexeme} {name : String} (h : Spells text l)
    (hl : l = .identifier name) : IsName name := by
  cases h with
  | name hw hkey =>
      cases hl
      exact ⟨by rwa [String.toList_ofList], hkey⟩
  | number _ | symbol _ => cases hl

theorem scanFrom_isName (filename : String) (mark : Mark) (cs : List Char) :
    ∀ t ∈ (scanFrom filename mark cs).tokens, ∀ name, t.lexeme = .identifier name →
      IsName name :=
  scanFrom_forall (P := fun l => ∀ name, l = .identifier name → IsName name) (by simp)
    (fun _ _ _ _ hcut _ hl => (longestCut_of_cut hcut).spells.isName hl) filename mark cs

end Scan

theorem tokensOf_isName {source filename : String} {tokens : List Token}
    (h : tokensOf source filename = .ok tokens) :
    ∀ t ∈ tokens, ∀ name, t.lexeme = .identifier name → Scan.IsName name := by
  rw [← scan_of_tokensOf h]
  exact Scan.scanFrom_isName filename {} source.toList

/-! ## Reading a single expression -/

namespace Cursor

open Grammar Parse

theorem parseExpression_sound {c c' : Cursor} {e : Expr} (hc : c.Closed)
    (h : c.parseExpression = .ok e c') :
    ∃ ts, Reads c c' ts ∧ DerivesExpr c'.slots.place .expression ts e := by
  unfold parseExpression soleExpression at h
  obtain ⟨e', d, he, h⟩ := bind_ok_iff.mp h
  rw [bind_of_ok (peek_eq d)] at h
  split at h
  · cases h
    obtain ⟨ts, hts, hd⟩ := expression_sound _ hc he
    exact ⟨ts, hts, hd _ (agrees_place _)⟩
  · exact absurd h (unexpected_ne_ok _ _ _ _)

theorem ends_of_isEnd {t : Token} (h : t.isEnd = true) (form : Form) : Ends form t := by
  intro s _ hkind
  rw [not_isEnd_of_isSymbol (kind_eq_symbol_iff.mp hkind)] at h
  cases h

theorem parseExpression_complete {c c' : Cursor} {ts : List Token} {e : Expr}
    (hreads : Reads c c' ts) (hend : c'.current.isEnd = true)
    (hd : DerivesExpr c'.slots.place .expression ts e) : c.parseExpression = .ok e c' := by
  have hlen : ts.length ≤ c.nestingBound := by
    rw [← length_rest, hreads.rest, List.length_append]
    omega
  have hrun := expression_complete _ hd hlen hreads (agrees_place _) (ends_of_isEnd hend _)
  unfold parseExpression soleExpression
  rw [bind_of_ok hrun, bind_of_ok (peek_eq c'), hend]
  rfl

end Cursor

theorem parseExpression_ok {source filename : String} {e : Expr}
    (h : parseExpression source filename = .ok e) :
    ∃ tokens c c', tokensOf source filename = .ok tokens ∧ Cursor.ofTokens? tokens = some c ∧
      c.parseExpression = .ok e c' := by
  unfold parseExpression at h
  cases htokens : tokensOf source filename with
  | error f => rw [htokens] at h; cases h
  | ok tokens =>
      rw [htokens] at h
      obtain ⟨c, c', hc, hp⟩ := readTokens_ok h
      exact ⟨tokens, c, c', rfl, hc, hp⟩

/-- Tokens that derive an expression up to the end are read as this expression. -/
theorem parseExpression_of_derives {source filename : String} {ts : List Token} {last : Token}
    (htokens : tokensOf source filename = .ok (ts ++ [last])) (hlast : last.isEnd = true)
    {e : Expr}
    (hd : Grammar.DerivesExpr (({} : SlotTable).declareAll (namesOf ts)).place .expression ts e) :
    parseExpression source filename = .ok e := by
  obtain ⟨c, hc, hrest, hslots, -⟩ := Cursor.ofTokens?_closed ts hlast
  obtain ⟨c', hreads, hcurrent⟩ := Cursor.exists_reads hrest
  rw [← hslots, ← hreads.slots] at hd
  have hrun := Cursor.parseExpression_complete hreads (hcurrent ▸ hlast) hd
  simp [parseExpression, htokens, readTokens, hc, hrun, bind, Except.bind]

/-! ## What can be written down -/

/-- The variable has a name of the language and a slot below the frame pointer. -/
structure VarRef.Written (r : VarRef) : Prop where
  name : Scan.IsName r.name
  offset : 0 < r.offset

theorem supplies_written {source filename : String} {tokens ts : List Token} {t : SlotTable}
    (htokens : tokensOf source filename = .ok tokens) (hfront : ts <+: tokens)
    (ht : t = ({} : SlotTable).declareAll (namesOf ts)) :
    Supplies t.place VarRef.Written IsLiteral ts := by
  intro u hu
  have hmem := hfront.subset hu
  have hplaces := supplies_places ht (fun u hu => tokensOf_literal htokens u (hfront.subset hu))
  refine ⟨fun n l hn => ⟨tokensOf_isName htokens u hmem n hn, ?_⟩, (hplaces u hu).2⟩
  have hslot := SlotTable.mem_slots_of_find? ((hplaces u hu).1 n l hn)
  have hsequential : t.Sequential := ht ▸ SlotTable.sequential_empty.declareAll _
  exact (hsequential.offset_mem hslot).1

theorem isLiteral_zero : IsLiteral 0 :=
  ⟨by decide, by decide⟩

theorem parseSource_written {source filename : String} {p : Program}
    (h : parseSource source filename = .ok p) :
    AllStmts VarRef.Written IsLiteral p.statements := by
  obtain ⟨tokens, htokens, hread⟩ := parseSource_ok h
  obtain ⟨c, c', hc, hp⟩ := readTokens_ok hread
  obtain ⟨ts, hfront, htable, hd⟩ := Cursor.parseProgram_derives hc hp
  exact hd.all isLiteral_zero (supplies_written htokens hfront htable)

theorem parseExpression_written {source filename : String} {e : Expr}
    (h : parseExpression source filename = .ok e) : e.All VarRef.Written IsLiteral := by
  obtain ⟨tokens, c, c', htokens, hc, hp⟩ := parseExpression_ok h
  obtain ⟨hrest, hempty, hclosed⟩ := Cursor.of_ofTokens? hc
  obtain ⟨ts, hts, hd⟩ := Cursor.parseExpression_sound hclosed hp
  have hfront : ts <+: tokens := ⟨c'.rest, by rw [← hrest, hts.rest]⟩
  have htable : c'.slots = ({} : SlotTable).declareAll (namesOf ts) := by rw [hts.slots, hempty]
  exact hd.all isLiteral_zero (supplies_written htokens hfront htable)

end StackLang
