/-!
# Similar words

Two words are compared by the characters they share in order: the longest stretch that stands in
both, then, in the same way, what is left of it and what is right of it.
-/

namespace StackLang.Text

def sharedFront : List Char → List Char → Nat
  | a :: as, b :: bs => if a = b then sharedFront as bs + 1 else 0
  | _, _ => 0

/-- A stretch that stands in two texts, by its place in each and its length. -/
structure SharedBlock where
  left : Nat
  right : Nat
  size : Nat

/-- The longest shared stretch; among several, the first in `a`, then the first in `b`. -/
def longestBlock (a b : List Char) : SharedBlock :=
  (List.range a.length).foldl
    (fun best i =>
      (List.range b.length).foldl
        (fun best j =>
          let size := sharedFront (a.drop i) (b.drop j)
          if best.size < size then ⟨i, j, size⟩ else best)
        best)
    ⟨0, 0, 0⟩

/-- The number of characters shared in order, with at most `bound` levels of splitting. -/
def sharedCount : (bound : Nat) → List Char → List Char → Nat
  | 0, _, _ => 0
  | bound + 1, a, b =>
    let block := longestBlock a b
    if block.size = 0 then 0
    else
      block.size + sharedCount bound (a.take block.left) (b.take block.right) +
        sharedCount bound (a.drop (block.left + block.size)) (b.drop (block.right + block.size))

/-- A word and how similar it is to another: shared characters and the length of both. -/
structure Candidate where
  word : String
  shared : Nat
  total : Nat

def Candidate.of (word candidate : String) : Candidate :=
  let a := candidate.toList
  let b := word.toList
  ⟨candidate, sharedCount a.length a b, a.length + b.length⟩

/-- Words count as close if the shared characters make up three fifths of both. -/
def Candidate.isClose (c : Candidate) : Bool :=
  3 * c.total ≤ 10 * c.shared

/-- More similar first, then later in the order of words. -/
def Candidate.precedes (c d : Candidate) : Bool :=
  if c.shared * d.total = d.shared * c.total then d.word ≤ c.word
  else d.shared * c.total < c.shared * d.total

/-- The at most three words that are most similar to `word` and close to it, in the order of
words. -/
def closeWords (word : String) (words : List String) : List String :=
  let close := (words.map (Candidate.of word)).filter Candidate.isClose
  ((close.mergeSort Candidate.precedes).take 3 |>.map (·.word)).mergeSort (fun a b => a ≤ b)

end StackLang.Text
