import QbCodec.Ieee.Basic

namespace QbCodec

/-- The quotient of `a` and `b` rounded to the nearest integer, a half to the even one. -/
def divNearest (a b : Nat) : Nat :=
  let q := a / b
  let r := a % b
  if b < 2 * r ∨ (2 * r = b ∧ q % 2 = 1) then q + 1 else q

namespace Single

def infinityBits : Nat := 255 * 2 ^ 23

def fittingPower (numerator denominator : Nat) : Nat :=
  (numerator * 2 ^ 149 / denominator).log2 - 23

def magnitudeBits (numerator denominator : Nat) : Nat :=
  let power := fittingPower numerator denominator
  let significand := divNearest (numerator * 2 ^ 149) (denominator * 2 ^ power)
  min (power * 2 ^ 23 + significand) infinityBits

def ofFraction (negative : Bool) (numerator denominator : Nat) : Single :=
  ⟨((if negative then 2 ^ 31 else 0) + magnitudeBits numerator denominator).toUInt32⟩

def ofInt (n : Int) : Single := ofFraction (n < 0) n.natAbs 1

end Single

end QbCodec
