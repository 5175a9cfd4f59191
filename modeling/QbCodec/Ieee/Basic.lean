/-!
Floating-point numbers as their IEEE 754 bit patterns. A finite single with fraction `f` and
exponent field `e` is `± significand · 2 ^ (power - 149)`.
-/

namespace QbCodec

-- Powers of numbers are those of the core library, whatever is imported beside it.
attribute [instance (1100), default_instance 20000] instPowNat

structure Single where
  bits : UInt32
  deriving DecidableEq

structure Double where
  bits : UInt64
  deriving DecidableEq

namespace Single

def exponentField (v : Single) : Nat := v.bits.toNat / 2 ^ 23 % 256

def fraction (v : Single) : Nat := v.bits.toNat % 2 ^ 23

def isNegative (v : Single) : Bool := 2 ^ 31 ≤ v.bits.toNat

def isFinite (v : Single) : Bool := v.exponentField != 255

def isNan (v : Single) : Bool := v.exponentField == 255 && v.fraction != 0

def significand (v : Single) : Nat :=
  if v.exponentField = 0 then v.fraction else v.fraction + 2 ^ 23

def power (v : Single) : Nat := v.exponentField - 1

end Single

def Double.isNan (v : Double) : Bool :=
  v.bits.toNat / 2 ^ 52 % 2048 == 2047 && v.bits.toNat % 2 ^ 52 != 0

end QbCodec
