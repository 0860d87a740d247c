/-!
# Integers as bits

An integer has infinitely many bits, all of them equal from some place on. A machine that computes
with such integers cuts words of 64 bits out of them by masks.
-/

namespace StackLang

namespace Bits

/-- The bits of `m` that `n` does not have. -/
def without (m n : Nat) : Nat := m ^^^ (m &&& n)

protected def and : Int → Int → Int
  | .ofNat m, .ofNat n => .ofNat (m &&& n)
  | .ofNat m, .negSucc n => .ofNat (without m n)
  | .negSucc m, .ofNat n => .ofNat (without n m)
  | .negSucc m, .negSucc n => .negSucc (m ||| n)

protected def or : Int → Int → Int
  | .ofNat m, .ofNat n => .ofNat (m ||| n)
  | .ofNat m, .negSucc n => .negSucc (without n m)
  | .negSucc m, .ofNat n => .negSucc (without m n)
  | .negSucc m, .negSucc n => .negSucc (m &&& n)

def mask64 : Int := ((1 : Int) <<< (64 : Nat)) - 1

def signBit : Int := (1 : Int) <<< (63 : Nat)

def lowByte : Int := 0xFF

/-- What the low 64 bits stand for in two's complement. -/
def toSigned (value : Int) : Int :=
  let pattern := Bits.and value mask64
  if Bits.and pattern signBit ≠ 0 then pattern - ((1 : Int) <<< (64 : Nat)) else pattern

/-- The number of 128 bits with the given halves, of which the high one is signed. -/
def joined (high low : Int) : Int := Bits.or (high <<< (64 : Nat)) low

/-- The quotient, made of that of the magnitudes. -/
def quotient (dividend divisor : Int) : Int :=
  let magnitude : Int := (dividend.natAbs / divisor.natAbs : Nat)
  if (decide (dividend < 0)) != (decide (divisor < 0)) then -magnitude else magnitude

def remainder (dividend divisor : Int) : Int :=
  dividend - quotient dividend divisor * divisor

end Bits

end StackLang
