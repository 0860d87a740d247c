import StackLang.Assembly.Instr

/-!
# Listings

A listing is what a machine runs: instructions in order, the labels that name places between
them, and the symbol at which to start.
-/

namespace StackLang

structure PlacedInstr where
  instr : Instr
  line : Int
  text : String
deriving DecidableEq

/-- Labels and the index of the instruction after each, in the order of their definition. -/
structure LabelTable where
  entries : List (String × Int) := []
deriving DecidableEq

namespace LabelTable

def find? (t : LabelTable) (name : String) : Option Int :=
  (t.entries.find? fun e => e.1 == name).map (·.2)

def contains (t : LabelTable) (name : String) : Bool :=
  (t.find? name).isSome

/-- Adds a label at the end, or moves the label of that name. -/
def put (t : LabelTable) (name : String) (index : Int) : LabelTable :=
  if t.contains name then
    ⟨t.entries.map fun e => if e.1 == name then (name, index) else e⟩
  else ⟨t.entries ++ [(name, index)]⟩

end LabelTable

structure Listing where
  instructions : Array PlacedInstr := #[]
  labels : LabelTable := {}
  entry : Option String := none
  filename : String := "<listing>"
deriving DecidableEq

namespace Listing

/-- The instruction at a position; negative positions count from the end. -/
def fetch? (l : Listing) (pc : Int) : Option PlacedInstr :=
  if 0 ≤ pc then l.instructions[pc.toNat]?
  else if -pc ≤ l.instructions.size then l.instructions[(l.instructions.size + pc).toNat]?
  else none

end Listing

end StackLang
