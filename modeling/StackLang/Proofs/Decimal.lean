import Mathlib.Tactic
import StackLang.Failure

/-!
# Numbers in decimal notation

Numbers of up to 4300 digits can be read and written. All tokens but longer numbers have a text, and
the reader reports its faults at all tokens that have one.
-/

namespace StackLang

open Text

/-- A number that is not too long to be read or written. -/
def FewDigits (value : Int) : Prop :=
  value.natAbs.repr.length ≤ digitLimit

theorem fewDigits_iff {value : Int} : FewDigits value ↔ value.natAbs < 10 ^ digitLimit :=
  Nat.length_repr_le_iff (by decide)

theorem fewDigits_of_lt {value : Int} (h : value.natAbs < 2 ^ 64) : FewDigits value := by
  have hlength : value.natAbs.repr.length ≤ 20 :=
    (Nat.length_repr_le_iff (by decide)).mpr (lt_trans h (by decide))
  exact hlength.trans (by decide)

theorem FewDigits.mono {value bound : Int} (h : FewDigits bound)
    (hle : value.natAbs ≤ bound.natAbs) : FewDigits value :=
  fewDigits_iff.mpr (hle.trans_lt (fewDigits_iff.mp h))

theorem FewDigits.writeDecimal? {value : Int} (h : FewDigits value) :
    writeDecimal? value = some (toString value) :=
  if_neg (Nat.not_lt.mpr h)

theorem eq_of_writeDecimal? {value : Int} {s : String} (h : writeDecimal? value = some s) :
    s = toString value := by
  unfold writeDecimal? at h
  split at h
  · cases h
  · exact (Option.some.inj h).symm

theorem writeDecimal?_eq_none_iff {value : Int} :
    writeDecimal? value = none ↔ 10 ^ digitLimit ≤ value.natAbs := by
  rw [← Nat.not_lt, ← fewDigits_iff, FewDigits, Nat.not_le, Text.writeDecimal?]
  split <;> simp_all

namespace Token

/-- The token is a number of more digits than can be written. -/
def Overlong (t : Token) : Prop :=
  ∃ value, t.lexeme = .number value ∧ 10 ^ digitLimit ≤ value.natAbs

theorem text?_eq_none_iff {t : Token} : t.text? = none ↔ t.Overlong := by
  obtain ⟨l, location⟩ := t
  cases l with
  | number value =>
      refine writeDecimal?_eq_none_iff.trans ⟨fun h => ⟨value, rfl, h⟩, ?_⟩
      rintro ⟨_, heq, h⟩
      cases heq
      exact h
  | _ => exact iff_of_false (Option.some_ne_none _) (by rintro ⟨_, heq, _⟩; cases heq)

end Token

namespace ParseFault

variable {fault : ParseFault} {lines : List String} {d : Diagnostic}

theorem failure_eq_report_iff :
    fault.failure lines = .report d ↔ fault.diagnostic? lines = some d := by
  unfold failure
  cases fault.diagnostic? lines <;> simp

theorem failure_of_none (h : fault.diagnostic? lines = none) :
    fault.failure lines = .invalidValue overlongMessage := by
  rw [failure, h]

end ParseFault

end StackLang
