import StackLang.Assembly.Listing
import StackLang.Diagnostic
import StackLang.Text.Digit
import StackLang.Text.Lines
import StackLang.Text.LowerCase
import StackLang.Text.WordChar

/-!
# Reading listings

A listing is read line by line. What follows `#` is a comment. A line may define a label, and
what is left of it is a directive if it starts with a period and an instruction otherwise.
-/

namespace StackLang

inductive ListingCause where
  | invalidLabel (name : String)
  | duplicateLabel (name : String)
  | dialect
  | symbolName (directive : String)
  | directive (name : String)
  | instruction (mnemonic : String) (column : Nat)
  | operandCount (mnemonic : Mnemonic) (count : Nat)
  | jumpTarget (text : String)
  | baseRegister (name : String)
  | operand (text : String)
  | twoMemoryOperands
  | immediateDestination (mnemonic : Mnemonic)
  | immediateRange
  | undefinedLabel (name : String)
  | tooManyDigits (excess : Text.TooManyDigits)
deriving DecidableEq

structure ListingFault where
  cause : ListingCause
  line : Int
  text : String
deriving DecidableEq

namespace ListingFault

/-- A number with too many digits is refused before it is read, so it has no diagnostic; every
other fault has one. -/
def diagnostic (f : ListingFault) (filename : String) : Except Text.TooManyDigits Diagnostic :=
  let place : Location := ⟨filename, f.line, 1, 0⟩
  let malformed (message : String) : Except Text.TooManyDigits Diagnostic :=
    .ok (.assembly message (some place) (some f.text))
  match f.cause with
  | .invalidLabel name => malformed s!"invalid label '{name}'"
  | .duplicateLabel name => malformed s!"label '{name}' defined twice"
  | .dialect => malformed "only '.intel_syntax noprefix' is supported"
  | .symbolName directive => malformed s!"{directive} needs one symbol name"
  | .directive name => malformed s!"unsupported directive '{name}'"
  | .instruction mnemonic column =>
    .ok (.unsupportedInstruction mnemonic (some { place with column := column }) (some f.text))
  | .operandCount m count =>
    malformed s!"'{m.name}' takes {m.operandCount} operands, got {count}"
  | .jumpTarget text => malformed s!"invalid jump target '{text}'"
  | .baseRegister name => malformed s!"invalid base register '{name}'"
  | .operand text => malformed s!"invalid operand '{text}'"
  | .twoMemoryOperands => malformed "at most one memory operand is allowed"
  | .immediateDestination m => malformed s!"'{m.name}' cannot write to an immediate"
  | .immediateRange => malformed "push immediate does not fit 32 bits"
  | .undefinedLabel name => .ok (.undefinedLabel name (some place) (some f.text))
  | .tooManyDigits excess => .error excess

end ListingFault

namespace Listing

/-! ## Names and numbers -/

def isLabelStart (c : Char) : Bool :=
  ('a' ≤ c && c ≤ 'z') || ('A' ≤ c && c ≤ 'Z') || c == '_' || c == '.' || c == '$'

def isLabelPart (c : Char) : Bool :=
  Text.isWordChar c || c == '.' || c == '$'

def isLabelName : List Char → Bool
  | [] => false
  | c :: cs => isLabelStart c && cs.all isLabelPart

def cutSign : List Char → Bool × List Char
  | '-' :: cs => (true, cs)
  | '+' :: cs => (false, cs)
  | cs => (false, cs)

def isDigitRun (cs : List Char) : Bool :=
  !cs.isEmpty && cs.all Text.isDigit

def readNumber (negative : Bool) (digits : List Char) : Except ListingCause Int :=
  match Text.readDecimal digits with
  | .error excess => .error (.tooManyDigits excess)
  | .ok value => .ok (if negative then -(value : Int) else value)

/-! ## Operands -/

structure MemoryForm where
  base : List Char
  negative : Bool := false
  digits : List Char := []
deriving DecidableEq

/-- The displacement of a memory operand after its sign, up to the closing bracket. -/
def displacedForm? (base : List Char) (negative : Bool) (cs : List Char) : Option MemoryForm :=
  let cs := cs.dropWhile Text.isBlank
  let digits := cs.takeWhile Text.isDigit
  if digits.isEmpty then none
  else if (cs.drop digits.length).dropWhile Text.isBlank = [']'] then
    some ⟨base, negative, digits⟩
  else none

/-- Takes `[base]`, `[base+digits]` or `[base-digits]` apart. Blanks may stand between the
parts. -/
def memoryForm? (cs : List Char) : Option MemoryForm :=
  match cs with
  | '[' :: cs =>
    let cs := cs.dropWhile Text.isBlank
    let base := cs.takeWhile fun c => 'a' ≤ c && c ≤ 'z'
    if base.isEmpty then none
    else
      match (cs.drop base.length).dropWhile Text.isBlank with
      | [']'] => some { base := base }
      | '+' :: cs => displacedForm? base false cs
      | '-' :: cs => displacedForm? base true cs
      | _ => none
  | _ => none

def readMemory (f : MemoryForm) : Except ListingCause Operand :=
  match Register.ofName? (String.ofList f.base) with
  | none | some .al => .error (.baseRegister (String.ofList f.base))
  | some base =>
    if f.digits.isEmpty then .ok (.mem base 0)
    else (readNumber f.negative f.digits).map fun d => .mem base d

/-- Reads one operand. A jump takes a label and nothing else takes one. -/
def readOperand (m : Mnemonic) (text : List Char) : Except ListingCause Operand :=
  if m.isJump then
    if isLabelName text then .ok (.label (String.ofList text))
    else .error (.jumpTarget (String.ofList text))
  else
    let lowered := Text.lower text
    match Register.ofName? (String.ofList lowered) with
    | some r => .ok (.reg r)
    | none =>
      let (negative, digits) := cutSign text
      if isDigitRun digits then (readNumber negative digits).map .imm
      else
        match memoryForm? lowered with
        | some f => readMemory f
        | none => .error (.operand (String.ofList text))

/-! ## Lines -/

def operandTexts (cs : List Char) : List (List Char) :=
  if cs.isEmpty then [] else (cs.splitOn ',').map Text.trim

def operandFault? (m : Mnemonic) (operands : List Operand) : Option ListingCause :=
  if 1 < operands.countP Operand.isMem then some .twoMemoryOperands
  else
    match operands with
    | .imm value :: _ =>
      if m ≠ .push then some (.immediateDestination m)
      else if fitsImmediate value then none
      else some .immediateRange
    | _ => none

/-- Reads an instruction; `raw` is the whole line it stands on. -/
def readInstr (raw line : List Char) : Except ListingCause Instr :=
  let (word, rest) := Text.cutWord line
  let lowered := String.ofList (Text.lower word)
  match Mnemonic.ofName? lowered with
  | none => .error (.instruction lowered ((Text.indexOf? word raw).getD 0 + 1))
  | some m => do
    let texts := operandTexts rest
    if texts.length ≠ m.operandCount then throw (.operandCount m texts.length)
    let operands ← texts.mapM (readOperand m)
    match operandFault? m operands with
    | some cause => throw cause
    | none => return ⟨m, operands⟩

/-- Follows a directive. The first symbol declared global is the entry. -/
def readDirective (l : Listing) (line : List Char) : Except ListingCause Listing :=
  match Text.words line with
  | [] => .ok l
  | name :: arguments =>
    let lowered := String.ofList (Text.lower name)
    if lowered = ".intel_syntax" then
      if arguments = ["noprefix".toList] then .ok l else .error .dialect
    else if lowered = ".globl" || lowered = ".global" then
      match arguments with
      | [symbol] =>
        if isLabelName symbol then
          .ok { l with entry := l.entry <|> some (String.ofList symbol) }
        else .error (.symbolName lowered)
      | _ => .error (.symbolName lowered)
    else if lowered = ".text" then .ok l
    else .error (.directive (String.ofList name))

/-- Defines the label in front of a line, if there is one, and gives the rest of the line. -/
def readLabel (l : Listing) (line : List Char) : Except ListingCause (Listing × List Char) :=
  if line.contains ':' then
    let name := Text.trim (line.takeWhile (· != ':'))
    let rest := Text.trim ((line.dropWhile (· != ':')).drop 1)
    let label := String.ofList name
    if !isLabelName name then .error (.invalidLabel label)
    else if l.labels.contains label then .error (.duplicateLabel label)
    else .ok ({ l with labels := l.labels.put label l.instructions.size }, rest)
  else .ok (l, line)

def readLine (l : Listing) (number : Nat) (raw : List Char) : Except ListingCause Listing := do
  let (l, line) ← readLabel l (Text.trim (raw.takeWhile (· != '#')))
  match line with
  | [] => return l
  | '.' :: _ => readDirective l line
  | _ =>
    let instr ← readInstr raw line
    return { l with instructions := l.instructions.push ⟨instr, number, String.ofList raw⟩ }

def readLines (l : Listing) (number : Nat) : List (List Char) → Except ListingFault Listing
  | [] => .ok l
  | raw :: rest =>
    match readLine l number raw with
    | .error cause => .error ⟨cause, number, String.ofList raw⟩
    | .ok l => readLines l (number + 1) rest

def danglingJump? (l : Listing) : Option ListingFault :=
  l.instructions.findSome? fun i =>
    match i.instr.target? with
    | some name =>
      if l.labels.contains name then none else some ⟨.undefinedLabel name, i.line, i.text⟩
    | none => none

/-- Reads a listing. Labels may be defined after the jumps to them. -/
def read (text : String) (filename : String := "<listing>") : Except ListingFault Listing := do
  let l ← readLines { filename := filename } 1 (Text.lines text.toList)
  match l.danglingJump? with
  | some fault => throw fault
  | none => return l

end Listing

end StackLang
