/-!
# Blanks and words

The blank characters of Unicode, the ways a line is cut at them, and the search for a word.
-/

namespace StackLang.Text

/-- Unicode white space, with the four information separators. -/
def isBlank (c : Char) : Bool :=
  let n := c.toNat
  (0x09 ≤ n && n ≤ 0x0D) || (0x1C ≤ n && n ≤ 0x20) || n == 0x85 || n == 0xA0 || n == 0x1680 ||
    (0x2000 ≤ n && n ≤ 0x200A) || n == 0x2028 || n == 0x2029 || n == 0x202F || n == 0x205F ||
    n == 0x3000

/-- Drops the longest final stretch of characters that satisfy `p`. -/
def dropTrailing (p : Char → Bool) (cs : List Char) : List Char :=
  (cs.reverse.dropWhile p).reverse

def trim (cs : List Char) : List Char :=
  dropTrailing isBlank (cs.dropWhile isBlank)

/-- The maximal stretches of characters that are not blank. -/
def words (cs : List Char) : List (List Char) :=
  (cs.splitOnP isBlank).filter fun w => !w.isEmpty

/-- The first word, and what follows it from the next character that is not blank. -/
def cutWord (cs : List Char) : List Char × List Char :=
  (cs.takeWhile fun c => !isBlank c, (cs.dropWhile fun c => !isBlank c).dropWhile isBlank)

def indexOf? (needle : List Char) : List Char → Option Nat
  | [] => if needle.isEmpty then some 0 else none
  | c :: cs =>
    if needle.isPrefixOf (c :: cs) then some 0 else (indexOf? needle cs).map (· + 1)

end StackLang.Text
