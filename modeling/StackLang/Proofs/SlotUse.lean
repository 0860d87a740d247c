import StackLang.Proofs.SlotOrder
import StackLang.Proofs.Unplaced

/-!
# Slots in use

Every name among the tokens of a program is a variable of its tree, so the tree by itself tells
what slots the program has. Programs that are the same up to places have the same table, although
tables do not count for sameness.
-/

namespace StackLang

theorem namesOf_cons_symbol {t : Token} {s : Symbol} (h : t.kind = .symbol s) (ts : List Token) :
    namesOf (t :: ts) = namesOf ts := by
  rw [← List.singleton_append, namesOf_append, namesOf_symbol (kind_eq_symbol_iff.mp h),
    List.nil_append]

/-! ## Names that are read -/

namespace Grammar

variable {place : String → Int}

theorem namesOf_optionalPlus {sign : List Token} (h : OptionalPlus (sign.map Token.kind)) :
    namesOf sign = [] := by
  rcases h with hnil | hplus
  · rw [List.map_eq_nil_iff.mp hnil, namesOf_nil]
  · obtain ⟨t, rest, rfl, ht, hrest⟩ := List.map_eq_cons_iff.mp hplus
    rw [List.map_eq_nil_iff.mp hrest, namesOf_cons_symbol ht, namesOf_nil]

theorem DerivesTarget.namesOf_eq {ts : List Token} {r : VarRef} (h : DerivesTarget place ts r) :
    namesOf ts = [r.name] := by
  induction h with
  | name hsign ht =>
      rw [namesOf_append, namesOf_optionalPlus hsign, List.nil_append, namesOf_identifier ht]
  | parentheses hsign hl _ hr ih =>
      rw [namesOf_append, namesOf_optionalPlus hsign, List.nil_append, namesOf_cons_symbol hl,
        namesOf_append, ih, namesOf_cons_symbol hr, namesOf_nil, List.append_nil]

theorem Joins.perm_refs {rank : Rank} {s : Symbol} {a b e : Expr} (h : Joins rank s a b e) :
    e.refs.Perm (a.refs ++ b.refs) := by
  cases h
  case gt | ge => exact List.perm_append_comm
  all_goals exact List.Perm.refl _

/-- The names among the tokens are those of the variables, up to the exchange of operands. -/
theorem DerivesExpr.perm_names {form : Form} {ts : List Token} {e : Expr}
    (h : DerivesExpr place form ts e) : (e.refs.map VarRef.name).Perm (namesOf ts) := by
  induction h with
  | number ht => rw [namesOf_number ht]; rfl
  | name ht => rw [namesOf_identifier ht]; rfl
  | parentheses hl _ hr ih =>
      rwa [namesOf_cons_symbol hl, namesOf_append, namesOf_cons_symbol hr, namesOf_nil,
        List.append_nil]
  | unsigned _ ih => exact ih
  | plus ht _ ih => rwa [namesOf_cons_symbol ht]
  | minus ht _ ih => rwa [namesOf_cons_symbol ht]
  | operand _ ih => exact ih
  | operator _ ht _ hj iha ihb =>
      rw [namesOf_append, namesOf_cons_symbol ht]
      refine (hj.perm_refs.map VarRef.name).trans ?_
      rw [List.map_append]
      exact iha.append ihb
  | equality _ ih => exact ih
  | assignment htarget ht _ ih =>
      rw [namesOf_append, namesOf_cons_symbol ht, htarget.namesOf_eq]
      exact ih.cons _

theorem DerivesClause.perm_names {ts : List Token} {clause : Option Expr}
    (h : DerivesClause place ts clause) :
    ((clauseRefs clause).map VarRef.name).Perm (namesOf ts) := by
  cases h with
  | absent => rfl
  | present he => exact he.perm_names

mutual

theorem DerivesStmt.perm_names {ts : List Token} {s : Stmt} (h : DerivesStmt place ts s) :
    (s.refs.map VarRef.name).Perm (namesOf ts) := by
  cases h with
  | expr he hs =>
      rw [← List.cons_append, namesOf_append, namesOf_cons_symbol hs, namesOf_nil,
        List.append_nil]
      exact he.perm_names
  | ret ht he hs =>
      rw [namesOf_cons_symbol ht, namesOf_append, namesOf_cons_symbol hs, namesOf_nil,
        List.append_nil]
      exact he.perm_names
  | ifThen ht hl hc hr ha =>
      rw [namesOf_cons_symbol ht, namesOf_cons_symbol hl, namesOf_append, namesOf_cons_symbol hr,
        Stmt.refs, List.map_append]
      exact hc.perm_names.append ha.perm_names
  | ifElse ht hl hc hr ha he hb =>
      rw [namesOf_cons_symbol ht, namesOf_cons_symbol hl, namesOf_append, namesOf_cons_symbol hr,
        namesOf_append, namesOf_cons_symbol he, Stmt.refs, List.map_append, List.map_append]
      exact hc.perm_names.append (ha.perm_names.append hb.perm_names)
  | while_ ht hl hc hr ha =>
      rw [namesOf_cons_symbol ht, namesOf_cons_symbol hl, namesOf_append, namesOf_cons_symbol hr,
        Stmt.refs, List.map_append]
      exact hc.perm_names.append ha.perm_names
  | for_ ht hl hi hm hc hn hu hr ha =>
      rw [namesOf_cons_symbol ht, namesOf_cons_symbol hl, namesOf_append, namesOf_cons_symbol hm,
        namesOf_append, namesOf_cons_symbol hn, namesOf_append, namesOf_cons_symbol hr, Stmt.refs,
        List.map_append, List.map_append, List.map_append]
      exact hi.perm_names.append (hc.perm_names.append (hu.perm_names.append ha.perm_names))
  | block hl hss hr =>
      rw [namesOf_cons_symbol hl, namesOf_append, namesOf_cons_symbol hr, namesOf_nil,
        List.append_nil]
      exact hss.perm_names

theorem DerivesProgram.perm_names {ts : List Token} {ss : List Stmt}
    (h : DerivesProgram place ts ss) : ((refsAll ss).map VarRef.name).Perm (namesOf ts) := by
  cases h with
  | nil => rfl
  | cons hs hss =>
      rw [namesOf_append, refsAll, List.map_append]
      exact hs.perm_names.append hss.perm_names

end

end Grammar

/-! ## Tables -/

namespace SlotTable

theorem Sequential.find?_of_mem {t : SlotTable} (ht : t.Sequential) {slot : Slot}
    (h : slot ∈ t.slots) : t.find? slot.name = some slot := by
  cases hfind : t.find? slot.name with
  | none => exact absurd (List.mem_map_of_mem h) (not_mem_names_of_find?_none hfind)
  | some other =>
      rw [List.inj_on_of_nodup_map ht.names (mem_slots_of_find? hfind) h (name_of_find? hfind)]

/-- A slot tells its index. -/
theorem Sequential.getElem?_of_mem {t u : SlotTable} (ht : t.Sequential) (hu : u.Sequential)
    {i : Nat} {slot : Slot} (hi : t.slots[i]? = some slot) (hmem : slot ∈ u.slots) :
    u.slots[i]? = some slot := by
  obtain ⟨j, hj⟩ := List.getElem?_of_mem hmem
  have hoi := ht.offset i slot hi
  have hoj := hu.offset j slot hj
  simp only [wordSize] at hoi hoj
  have hij : i = j := by omega
  exact hij ▸ hj

/-- Tables in sequence with the same slots have them in the same order. -/
theorem Sequential.eq_of_mem_iff {t u : SlotTable} (ht : t.Sequential) (hu : u.Sequential)
    (h : ∀ slot, slot ∈ t.slots ↔ slot ∈ u.slots) : t = u := by
  have hslots : t.slots = u.slots := by
    apply List.ext_getElem?
    intro i
    apply Option.ext
    intro slot
    exact ⟨fun hi => ht.getElem?_of_mem hu hi ((h slot).mp (List.mem_of_getElem? hi)),
      fun hi => hu.getElem?_of_mem ht hi ((h slot).mpr (List.mem_of_getElem? hi))⟩
  cases t
  cases u
  exact congrArg SlotTable.mk hslots

end SlotTable

/-- A program that was read has exactly the slots that its variables use. -/
theorem parseSource_slots_used {source filename : String} {p : Program}
    (h : parseSource source filename = .ok p) (slot : Slot) :
    slot ∈ p.slots.slots ↔ ∃ r ∈ p.refs.map VarRef.unplaced, slot = ⟨r.name, r.offset⟩ := by
  have hsound := parseSource_sound h
  have hplaces := hsound.statements.refs
  obtain ⟨tokens, -, hread⟩ := parseSource_ok h
  obtain ⟨c, c', hc, hp⟩ := readTokens_ok hread
  obtain ⟨ts, -, htable, hd⟩ := Cursor.parseProgram_derives hc hp
  constructor
  · intro hslot
    have hname : slot.name ∈ p.refs.map VarRef.name := by
      rw [Program.refs, hd.perm_names.mem_iff, ← List.mem_eraseDups, ← SlotTable.names_inOrder,
        ← SlotTable.slots_declareAll, ← htable]
      exact List.mem_map_of_mem hslot
    obtain ⟨r, hr, hrname⟩ := List.mem_map.mp hname
    have hfind := hsound.sequential.find?_of_mem hslot
    rw [← hrname, hplaces r hr] at hfind
    exact ⟨r.unplaced, List.mem_map_of_mem hr, (Option.some.inj hfind).symm⟩
  · rintro ⟨_, hmem, rfl⟩
    obtain ⟨r, hr, rfl⟩ := List.mem_map.mp hmem
    exact SlotTable.mem_slots_of_find? (hplaces r hr)

theorem Program.slots_eq_of_same {source source' filename filename' : String} {p q : Program}
    (hp : parseSource source filename = .ok p) (hq : parseSource source' filename' = .ok q)
    (h : unplacedAll p.statements = unplacedAll q.statements) : p.slots = q.slots := by
  have hrefs : p.refs.map VarRef.unplaced = q.refs.map VarRef.unplaced := by
    rw [Program.refs, Program.refs, ← refsAll_unplacedAll, h, refsAll_unplacedAll]
  refine (parseSource_sound hp).sequential.eq_of_mem_iff (parseSource_sound hq).sequential
    fun slot => ?_
  rw [parseSource_slots_used hp, parseSource_slots_used hq, hrefs]

end StackLang
