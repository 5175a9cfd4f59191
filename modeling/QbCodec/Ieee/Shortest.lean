import QbCodec.Ieee.Basic

/-!
The decimal with the fewest digits among those that round to a given single, and of these the
nearest to it. Grids of decimals are tried from the coarsest on: the first that meets the interval
of numbers rounding to the single does so in a neighbour of the single on that grid.
-/

namespace QbCodec.Single

structure Decimal where
  digits : Nat
  exponent : Int
  deriving DecidableEq

def scale (quarters power : Nat) : Nat := quarters * 2 ^ power * 10 ^ 46

def gridUnit (grid : Nat) : Nat := 10 ^ grid * 2 ^ 151

def lowerGap (v : Single) : Nat := if v.fraction = 0 ∧ 1 < v.exponentField then 1 else 2

def roundsTo (v : Single) (x : Nat) : Bool :=
  let low := scale (4 * v.significand - v.lowerGap) v.power
  let high := scale (4 * v.significand + 2) v.power
  if v.significand % 2 = 0 then low ≤ x && x ≤ high else low < x && x < high

/-- The nearer neighbour of `v` on a grid among those that round to `v`; of two equally near the
larger one. -/
def neighbour? (v : Single) (grid : Nat) : Option Nat :=
  let unit := gridUnit grid
  let x := scale (4 * v.significand) v.power
  let below := x / unit
  let lowFits := v.roundsTo (below * unit)
  let highFits := v.roundsTo ((below + 1) * unit)
  if lowFits && (!highFits || 2 * (x % unit) < unit) then some below
  else if highFits then some (below + 1)
  else none

def shortestFrom (v : Single) : Nat → Decimal
  | 0 => ⟨(v.neighbour? 0).getD 0, -46⟩
  | grid + 1 =>
    match v.neighbour? (grid + 1) with
    | some digits => ⟨digits, (grid + 1 : Nat) - 46⟩
    | none => shortestFrom v grid

def shortest (v : Single) : Decimal := shortestFrom v 85

end QbCodec.Single
