import StackLang.Assembly.Instr
import Std.Data.TreeMap

/-!
# Machine states

Six registers of 64 bits, three flags, and a memory of 64-bit words that is zero where nothing
was written. Addresses and values are taken modulo `2 ^ 64`.
-/

namespace StackLang

/-- A machine word. `BitVec.toInt` is its value in two's complement. -/
abbrev Word := BitVec 64

namespace Word

def ofInt (value : Int) : Word := BitVec.ofInt 64 value

def lowByte (w : Word) : Word := w &&& 0xFF

def withLowByte (w low : Word) : Word := (w &&& ~~~0xFF) ||| low.lowByte

end Word

/-- The register file. Registers under other names come into being when they are written. -/
structure Registers where
  rax : Word := 0
  rcx : Word := 0
  rdi : Word := 0
  rdx : Word := 0
  rbp : Word := 0
  rsp : Word := 0
  extra : List (String × Word) := []
deriving DecidableEq

namespace Registers

def read? (r : Registers) : Register → Option Word
  | .rax => some r.rax
  | .rcx => some r.rcx
  | .rdi => some r.rdi
  | .rdx => some r.rdx
  | .rbp => some r.rbp
  | .rsp => some r.rsp
  | .al => some r.rax.lowByte
  | .other name => (r.extra.find? fun e => e.1 == name).map (·.2)

def write (r : Registers) : Register → Word → Registers
  | .rax, w => { r with rax := w }
  | .rcx, w => { r with rcx := w }
  | .rdi, w => { r with rdi := w }
  | .rdx, w => { r with rdx := w }
  | .rbp, w => { r with rbp := w }
  | .rsp, w => { r with rsp := w }
  | .al, w => { r with rax := r.rax.withLowByte w }
  | .other name, w =>
    if (r.extra.find? fun e => e.1 == name).isSome then
      { r with extra := r.extra.map fun e => if e.1 == name then (name, w) else e }
    else { r with extra := r.extra ++ [(name, w)] }

def toList (r : Registers) : List (String × Word) :=
  [("rax", r.rax), ("rcx", r.rcx), ("rdi", r.rdi), ("rdx", r.rdx), ("rbp", r.rbp),
    ("rsp", r.rsp)] ++ r.extra

end Registers

structure Memory where
  words : Std.TreeMap Word Word := {}

namespace Memory

def read (m : Memory) (address : Word) : Word :=
  m.words.getD address 0

def write (m : Memory) (address value : Word) : Memory :=
  ⟨m.words.insert address value⟩

/-- The words that were written, by ascending address. -/
def toList (m : Memory) : List (Word × Word) :=
  m.words.toList

end Memory

structure Flags where
  zero : Bool := false
  sign : Bool := false
  overflow : Bool := false
deriving DecidableEq

def Flags.ofResult (exact : Int) : Flags :=
  let w := Word.ofInt exact
  ⟨w == 0, w.msb, w.toInt != exact⟩

structure State where
  registers : Registers := {}
  memory : Memory := {}
  flags : Flags := {}
  /-- The index of the next instruction. -/
  pc : Int := 0
  /-- The number of instructions executed. -/
  steps : Nat := 0
  halted : Bool := false

end StackLang
