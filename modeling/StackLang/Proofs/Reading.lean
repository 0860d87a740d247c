import StackLang.Program.Parse
import StackLang.Proofs.Slots

/-!
# Moving a cursor

What it means to have read tokens: the cursor is past them, and the names among them have slots.
The steps of the reader are stated as equations on cursors, so that later proofs need not open
them.
-/

namespace StackLang

/-- The names among tokens, in order. -/
def namesOf (ts : List Token) : List String :=
  ts.filterMap fun t =>
    match t.lexeme with
    | .identifier name => some name
    | _ => none

@[simp] theorem namesOf_nil : namesOf [] = [] := rfl

theorem namesOf_append (ts us : List Token) : namesOf (ts ++ us) = namesOf ts ++ namesOf us :=
  List.filterMap_append

theorem namesOf_identifier {t : Token} {name : String} (h : t.lexeme = .identifier name) :
    namesOf [t] = [name] := by
  simp [namesOf, h]

theorem namesOf_number {t : Token} {v : Int} (h : t.lexeme = .number v) : namesOf [t] = [] := by
  simp [namesOf, h]

theorem isSymbol_iff {t : Token} {s : Symbol} :
    t.isSymbol s = true ↔ ∃ text, t.lexeme = .symbol s text := by
  unfold Token.isSymbol
  cases t.lexeme <;> simp

theorem namesOf_symbol {t : Token} {s : Symbol} (h : t.isSymbol s = true) : namesOf [t] = [] := by
  obtain ⟨text, ht⟩ := isSymbol_iff.mp h
  simp [namesOf, ht]

theorem not_isEnd_of_isSymbol {t : Token} {s : Symbol} (h : t.isSymbol s = true) :
    t.isEnd = false := by
  obtain ⟨text, ht⟩ := isSymbol_iff.mp h
  simp [Token.isEnd, ht]

namespace Cursor

/-- The tokens from the cursor on. -/
def rest (c : Cursor) : List Token :=
  c.current :: c.later

/-- An end of the input lies ahead. -/
def Closed (c : Cursor) : Prop :=
  ∃ t ∈ c.rest, t.isEnd = true

theorem ext_of_rest {c d : Cursor} (hrest : c.rest = d.rest) (hslots : c.slots = d.slots) :
    c = d := by
  cases c
  cases d
  simp_all [rest]

@[simp] theorem slots_advance (c : Cursor) : c.advance.slots = c.slots := by
  unfold advance
  split
  · rfl
  · split <;> rfl

theorem rest_advance {c : Cursor} (hc : c.Closed) (h : c.current.isEnd = false) :
    c.rest = c.current :: c.advance.rest := by
  obtain ⟨t, hmem, hend⟩ := hc
  unfold advance
  cases hl : c.later with
  | nil =>
      simp only [rest, hl, List.mem_singleton] at hmem
      subst hmem
      simp [h] at hend
  | cons u us => simp [rest, hl, h]

end Cursor

/-- Between the two cursors lie exactly the given tokens, whose names have slots by now. -/
structure Reads (c c' : Cursor) (ts : List Token) : Prop where
  rest : c.rest = ts ++ c'.rest
  slots : c'.slots = c.slots.declareAll (namesOf ts)

namespace Reads

theorem refl (c : Cursor) : Reads c c [] :=
  ⟨rfl, rfl⟩

theorem trans {c d e : Cursor} {ts us : List Token} (h₁ : Reads c d ts) (h₂ : Reads d e us) :
    Reads c e (ts ++ us) where
  rest := by rw [h₁.rest, h₂.rest, List.append_assoc]
  slots := by rw [h₂.slots, h₁.slots, namesOf_append, SlotTable.declareAll_append]

theorem split {c e : Cursor} {ts us : List Token} (h : Reads c e (ts ++ us)) :
    ∃ d, Reads c d ts ∧ Reads d e us := by
  have hrest : ∀ l : List Token, l = us ++ e.rest → ∃ t l', l = t :: l' := by
    intro l hl
    cases l with
    | nil => simp [Cursor.rest] at hl
    | cons t l' => exact ⟨t, l', rfl⟩
  obtain ⟨t, l, hl⟩ := hrest _ rfl
  refine ⟨⟨t, l, c.slots.declareAll (namesOf ts)⟩, ⟨?_, rfl⟩, ⟨?_, ?_⟩⟩
  · rw [h.rest, List.append_assoc, hl]
    rfl
  · rw [hl]
    rfl
  · rw [h.slots, namesOf_append, SlotTable.declareAll_append]

theorem split_cons {c e : Cursor} {t : Token} {us : List Token} (h : Reads c e (t :: us)) :
    ∃ d, Reads c d [t] ∧ Reads d e us :=
  @split c e [t] us h

theorem current {c c' : Cursor} {t : Token} {ts : List Token} (h : Reads c c' (t :: ts)) :
    c.current = t := by
  have hrest := h.rest
  simp only [Cursor.rest, List.cons_append, List.cons.injEq] at hrest
  exact hrest.1

theorem eq_of_nil {c c' : Cursor} (h : Reads c c' []) : c = c' :=
  Cursor.ext_of_rest h.rest h.slots.symm

theorem closed {c c' : Cursor} {ts : List Token} (h : Reads c c' ts) (hc : c.Closed)
    (hts : ∀ t ∈ ts, t.isEnd = false) : c'.Closed := by
  obtain ⟨t, hmem, hend⟩ := hc
  rw [h.rest, List.mem_append] at hmem
  rcases hmem with hmem | hmem
  · simp [hts t hmem] at hend
  · exact ⟨t, hmem, hend⟩

/-- The cursor passes a token that is neither a name nor the end. -/
theorem advance {c : Cursor} (hc : c.Closed) (hend : c.current.isEnd = false)
    (hname : namesOf [c.current] = []) : Reads c c.advance [c.current] where
  rest := Cursor.rest_advance hc hend
  slots := by simp [hname]

/-- Conversely, having read one token means having passed it. -/
theorem advance_eq {c c' : Cursor} {t : Token} (h : Reads c c' [t]) (hend : t.isEnd = false) :
    c.advance.rest = c'.rest := by
  have hcurrent := h.current
  have hrest := h.rest
  simp only [Cursor.rest, List.cons_append, List.nil_append, List.cons.injEq] at hrest
  unfold Cursor.advance
  rw [hcurrent, hend, hrest.2]
  rfl

theorem eq_advance {c c' : Cursor} {t : Token} (h : Reads c c' [t]) (hend : t.isEnd = false)
    (hname : namesOf [t] = []) : c.advance = c' := by
  apply Cursor.ext_of_rest (h.advance_eq hend)
  rw [h.slots, hname, Cursor.slots_advance]
  rfl

end Reads

namespace Parse

/-! ## Steps of the reader -/

@[simp] theorem bind_ok_iff {α β : Type} {x : Parse α} {f : α → Parse β} {c c'' : Cursor} {b : β} :
    (x >>= f) c = .ok b c'' ↔ ∃ a c', x c = .ok a c' ∧ f a c' = .ok b c'' := by
  change EStateM.bind x f c = _ ↔ _
  unfold EStateM.bind
  cases x c <;> simp

theorem bind_of_ok {α β : Type} {x : Parse α} {c c' : Cursor} {a : α} (h : x c = .ok a c')
    (f : α → Parse β) : (x >>= f) c = f a c' := by
  change EStateM.bind x f c = _
  simp [EStateM.bind, h]

theorem bind_error_iff {α β : Type} {x : Parse α} {f : α → Parse β} {c c'' : Cursor}
    {fault : ParseFault} :
    (x >>= f) c = .error fault c'' ↔
      x c = .error fault c'' ∨ ∃ a c', x c = .ok a c' ∧ f a c' = .error fault c'' := by
  change EStateM.bind x f c = _ ↔ _
  unfold EStateM.bind
  cases x c <;> simp

@[simp] theorem pure_ok_iff {α : Type} {a b : α} {c c' : Cursor} :
    (pure a : Parse α) c = .ok b c' ↔ a = b ∧ c = c' := by
  change EStateM.Result.ok a c = _ ↔ _
  simp

@[simp] theorem map_ok_iff {α β : Type} {x : Parse α} {f : α → β} {c c' : Cursor} {b : β} :
    (f <$> x) c = .ok b c' ↔ ∃ a, x c = .ok a c' ∧ f a = b := by
  change EStateM.map f x c = _ ↔ _
  unfold EStateM.map
  cases x c <;> simp [and_comm]

theorem peek_eq (c : Cursor) : peek c = .ok c.current c := rfl

theorem advance_eq (c : Cursor) : advance c = .ok () c.advance := rfl

theorem at?_eq (s : Symbol) (c : Cursor) : at? s c = .ok (c.current.isSymbol s) c := rfl

theorem unexpected_eq {α : Type} (e : Expected) (c : Cursor) :
    (unexpected e : Parse α) c = .error (.unexpected e c.current) c := rfl

theorem unexpected_ne_ok {α : Type} (e : Expected) (c c' : Cursor) (a : α) :
    unexpected e c ≠ .ok a c' := by
  intro h
  cases h

theorem throw_ne_ok {α : Type} (f : ParseFault) (c c' : Cursor) (a : α) :
    (throw f : Parse α) c ≠ .ok a c' := by
  intro h
  cases h

theorem expect_of_isSymbol {s : Symbol} {c : Cursor} (h : c.current.isSymbol s = true) :
    expect s c = .ok () c.advance := by
  unfold expect
  rw [bind_of_ok (at?_eq s c), h]
  rfl

theorem expect_ok_iff {s : Symbol} {c c' : Cursor} :
    expect s c = .ok () c' ↔ c.current.isSymbol s = true ∧ c' = c.advance := by
  cases h : c.current.isSymbol s with
  | true =>
      rw [expect_of_isSymbol h]
      simp [eq_comm]
  | false =>
      unfold expect
      rw [bind_of_ok (at?_eq s c), h]
      simp [unexpected_ne_ok]

theorem expect_error_iff {s : Symbol} {c c' : Cursor} {fault : ParseFault} :
    expect s c = .error fault c' ↔
      c.current.isSymbol s = false ∧ .unexpected (.symbol s) c.current = fault ∧ c = c' := by
  cases h : c.current.isSymbol s with
  | true =>
      rw [expect_of_isSymbol h]
      simp
  | false =>
      unfold expect
      rw [bind_of_ok (at?_eq s c), h]
      simp [unexpected_eq]

/-- A symbol that was expected was read. -/
theorem expect_reads {s : Symbol} {c c' : Cursor} (hc : c.Closed) (h : expect s c = .ok () c') :
    c.current.isSymbol s = true ∧ Reads c c' [c.current] := by
  obtain ⟨hs, rfl⟩ := expect_ok_iff.mp h
  exact ⟨hs, Reads.advance hc (not_isEnd_of_isSymbol hs) (namesOf_symbol hs)⟩

/-- A symbol ahead is read when it is expected. -/
theorem expect_of_reads {s : Symbol} {c c' : Cursor} {t : Token} (h : Reads c c' [t])
    (hs : t.isSymbol s = true) : expect s c = .ok () c' := by
  have hcurrent := h.current
  rw [expect_ok_iff, hcurrent]
  exact ⟨hs, (h.eq_advance (not_isEnd_of_isSymbol hs) (namesOf_symbol hs)).symm⟩

end Parse

end StackLang
