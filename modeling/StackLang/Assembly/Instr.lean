/-!
# Instructions

The part of the x86-64 instruction set that compiled programs use, in Intel order: the
destination comes first.
-/

namespace StackLang

/-- The registers, `al` being the low byte of `rax`. Other names may stand in an instruction that
was put together by hand. -/
inductive Register where
  | rax
  | rcx
  | rdi
  | rdx
  | rbp
  | rsp
  | al
  | other (name : String)
deriving DecidableEq

namespace Register

def name : Register → String
  | .rax => "rax"
  | .rcx => "rcx"
  | .rdi => "rdi"
  | .rdx => "rdx"
  | .rbp => "rbp"
  | .rsp => "rsp"
  | .al => "al"
  | .other name => name

def known : List Register :=
  [.rax, .rcx, .rdi, .rdx, .rbp, .rsp, .al]

def ofName? (name : String) : Option Register :=
  known.find? fun r => r.name == name

def ofName (name : String) : Register :=
  (ofName? name).getD (.other name)

end Register

inductive Mnemonic where
  | push
  | pop
  | mov
  | lea
  | add
  | sub
  | imul
  | cqo
  | idiv
  | cmp
  | sete
  | setne
  | setl
  | setle
  | movzb
  | jmp
  | je
  | ret
  | other (name : String)
deriving DecidableEq

namespace Mnemonic

def name : Mnemonic → String
  | .push => "push"
  | .pop => "pop"
  | .mov => "mov"
  | .lea => "lea"
  | .add => "add"
  | .sub => "sub"
  | .imul => "imul"
  | .cqo => "cqo"
  | .idiv => "idiv"
  | .cmp => "cmp"
  | .sete => "sete"
  | .setne => "setne"
  | .setl => "setl"
  | .setle => "setle"
  | .movzb => "movzb"
  | .jmp => "jmp"
  | .je => "je"
  | .ret => "ret"
  | .other name => name

def known : List Mnemonic :=
  [.push, .pop, .mov, .lea, .add, .sub, .imul, .cqo, .idiv, .cmp, .sete, .setne, .setl, .setle,
    .movzb, .jmp, .je, .ret]

def ofName? (name : String) : Option Mnemonic :=
  known.find? fun m => m.name == name

def ofName (name : String) : Mnemonic :=
  (ofName? name).getD (.other name)

def operandCount : Mnemonic → Nat
  | .mov | .lea | .add | .sub | .imul | .cmp | .movzb => 2
  | .push | .pop | .idiv | .sete | .setne | .setl | .setle | .jmp | .je => 1
  | .cqo | .ret | .other _ => 0

def isJump : Mnemonic → Bool
  | .jmp | .je => true
  | _ => false

end Mnemonic

inductive Operand where
  | reg (r : Register)
  | imm (value : Int)
  /-- The word at the address `base + displacement`. -/
  | mem (base : Register) (displacement : Int)
  | label (name : String)
deriving DecidableEq

namespace Operand

def text : Operand → String
  | .reg r => r.name
  | .imm value => toString value
  | .mem base d =>
    if d = 0 then s!"[{base.name}]"
    else if d < 0 then s!"[{base.name}-{d.natAbs}]"
    else s!"[{base.name}+{d.natAbs}]"
  | .label name => name

def isMem : Operand → Bool
  | .mem _ _ => true
  | _ => false

end Operand

structure Instr where
  mnemonic : Mnemonic
  operands : List Operand := []
deriving DecidableEq

namespace Instr

def operandText (i : Instr) : String :=
  String.intercalate ", " (i.operands.map Operand.text)

def text (i : Instr) : String :=
  if i.operands.isEmpty then i.mnemonic.name else i.mnemonic.name ++ " " ++ i.operandText

def target? (i : Instr) : Option String :=
  match i.operands with
  | .label name :: _ => some name
  | _ => none

end Instr

/-- Immediate values that an instruction can hold in 32 bits. -/
def fitsImmediate (value : Int) : Bool :=
  -0x80000000 ≤ value && value ≤ 0x7FFFFFFF

end StackLang
