/-!
# Stack slots

Every variable of a program lives in one machine word below the frame pointer. A `SlotTable` gives
out the slots in the order in which names first appear, at distances 8, 16, 24, … bytes.
-/

namespace StackLang

def wordSize : Nat := 8

/-- A variable and the distance of its word below the frame pointer, in bytes. -/
structure Slot where
  name : String
  offset : Int
deriving DecidableEq

structure SlotTable where
  slots : List Slot := []
deriving DecidableEq

namespace SlotTable

def size (t : SlotTable) : Nat :=
  t.slots.length

def find? (t : SlotTable) (name : String) : Option Slot :=
  t.slots.find? fun s => s.name == name

def contains (t : SlotTable) (name : String) : Bool :=
  (t.find? name).isSome

/-- The slot of `name`, which is given the next free one on its first appearance. -/
def declare (t : SlotTable) (name : String) : Slot × SlotTable :=
  match t.find? name with
  | some slot => (slot, t)
  | none =>
    let slot : Slot := ⟨name, (t.size + 1) * wordSize⟩
    (slot, ⟨t.slots ++ [slot]⟩)

/-- Records a slot as given: in place of the one of that name, or else at the end. -/
def put (t : SlotTable) (slot : Slot) : SlotTable :=
  if t.contains slot.name then
    ⟨t.slots.map fun s => if s.name == slot.name then slot else s⟩
  else ⟨t.slots ++ [slot]⟩

/-- The bytes to reserve for all slots: their total rounded up to a multiple of `alignment`.
There is no such number for alignment zero. -/
def frameSize? (t : SlotTable) (alignment : Int := 16) : Option Int :=
  if alignment = 0 then none
  else some (((t.size * wordSize : Nat) + alignment - 1).fdiv alignment * alignment)

def dump (t : SlotTable) : String :=
  let entries := t.slots.map fun s => s!"{s.name}@{s.offset}"
  "VariableTable(" ++ String.intercalate ", " entries ++ ")"

end SlotTable

end StackLang
