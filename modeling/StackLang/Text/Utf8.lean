import StackLang.Text.Quoted

/-!
# UTF-8

Decodes bytes as UTF-8, byte by byte. A fault covers the bytes of the character that was begun,
up to the first byte that cannot continue it.
-/

namespace StackLang.Text

inductive Utf8Reason where
  | start
  | continuation
  | ending
deriving DecidableEq

def Utf8Reason.text : Utf8Reason → String
  | .start => "invalid start byte"
  | .continuation => "invalid continuation byte"
  | .ending => "unexpected end of data"

/-- The bytes from position `first` up to and without position `stop` are no UTF-8. -/
structure Utf8Fault where
  reason : Utf8Reason
  /-- The byte at position `first`. -/
  byte : Nat
  first : Nat
  stop : Nat
deriving DecidableEq

def Utf8Fault.message (f : Utf8Fault) : String :=
  let place :=
    if f.stop ≤ f.first + 1 then
      "byte 0x" ++ String.ofList (hexDigits 2 f.byte) ++ s!" in position {f.first}"
    else s!"bytes in position {f.first}-{f.stop - 1}"
  "'utf-8' codec can't decode " ++ place ++ ": " ++ f.reason.text

structure Begun where
  /-- The first byte, and its position. -/
  byte : Nat
  first : Nat
  /-- The number of bytes still to come, and the bounds of the next one. -/
  missing : Nat
  low : Nat := 0x80
  high : Nat := 0xBF
  /-- The bits read so far. -/
  bits : Nat

/-- The character that a first byte outside ASCII begins. The bounds of the next byte leave out
long forms, surrogates and what lies beyond Unicode. -/
def begin? (position byte : Nat) : Option Begun :=
  if 0xC2 ≤ byte && byte ≤ 0xDF then
    some { byte := byte, first := position, missing := 1, bits := byte - 0xC0 }
  else if 0xE0 ≤ byte && byte ≤ 0xEF then
    some
      { byte := byte, first := position, missing := 2, bits := byte - 0xE0
        low := if byte = 0xE0 then 0xA0 else 0x80
        high := if byte = 0xED then 0x9F else 0xBF }
  else if 0xF0 ≤ byte && byte ≤ 0xF4 then
    some
      { byte := byte, first := position, missing := 3, bits := byte - 0xF0
        low := if byte = 0xF0 then 0x90 else 0x80
        high := if byte = 0xF4 then 0x8F else 0xBF }
  else none

def decodeFrom (position : Nat) (begun : Option Begun) : List UInt8 → Except Utf8Fault (List Char)
  | [] =>
    match begun with
    | none => .ok []
    | some b => .error ⟨.ending, b.byte, b.first, position⟩
  | next :: rest =>
    let byte := next.toNat
    match begun with
    | none =>
      if byte < 0x80 then (decodeFrom (position + 1) none rest).map (Char.ofNat byte :: ·)
      else
        match begin? position byte with
        | none => .error ⟨.start, byte, position, position + 1⟩
        | some b => decodeFrom (position + 1) (some b) rest
    | some b =>
      if b.low ≤ byte && byte ≤ b.high then
        let bits := b.bits * 64 + (byte - 0x80)
        if b.missing = 1 then (decodeFrom (position + 1) none rest).map (Char.ofNat bits :: ·)
        else
          decodeFrom (position + 1)
            (some { byte := b.byte, first := b.first, missing := b.missing - 1, bits := bits })
            rest
      else .error ⟨.continuation, b.byte, b.first, position⟩

def decodeUtf8 (bytes : List UInt8) : Except Utf8Fault String :=
  (decodeFrom 0 none bytes).map String.ofList

end StackLang.Text
