/-!
# Control sequences

A terminal takes `ESC [`, parameters and a letter for a command, such as a change of colour.
Messages are shown without them.
-/

namespace StackLang.Text

/-- The characters between the start of a control sequence and the letter that ends it. -/
def isParameter (c : Char) : Bool :=
  c.isDigit || c == ';' || c == '?'

/-- What follows the control sequence that a text starts with. -/
def afterControlSequence? : List Char → Option (List Char)
  | '\x1b' :: '[' :: cs =>
    match cs.dropWhile isParameter with
    | c :: rest => if c.isAlpha then some rest else none
    | [] => none
  | _ => none

theorem length_lt_of_afterControlSequence? {cs rest : List Char}
    (h : afterControlSequence? cs = some rest) : rest.length < cs.length := by
  unfold afterControlSequence? at h
  split at h
  next tail =>
    have hle := (List.dropWhile_sublist isParameter (l := tail)).length_le
    split at h
    next c later heq =>
      split at h
      · cases h
        rw [heq] at hle
        simp only [List.length_cons] at hle ⊢
        omega
      · contradiction
    · contradiction
  · contradiction

/-- A text without its control sequences. What is left is not searched again, so the ends of two
sequences that stood around a third one stay. -/
def dropControlSequences (cs : List Char) : List Char :=
  match cs with
  | [] => []
  | c :: rest =>
    match _h : afterControlSequence? (c :: rest) with
    | some later => dropControlSequences later
    | none => c :: dropControlSequences rest
termination_by cs.length
decreasing_by
  · exact length_lt_of_afterControlSequence? _h
  · simp

def plain (message : String) : String :=
  String.ofList (dropControlSequences message.toList)

end StackLang.Text
