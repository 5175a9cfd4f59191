namespace QbCodec.Text

abbrev Ranges := List (Nat × Nat)

/-- Stops at the first interval that lies beyond `n`, which the increasing order allows. -/
def Ranges.has : Ranges → Nat → Bool
  | [], _ => false
  | (first, last) :: rest, n =>
    if n < first then false else if n ≤ last then true else Ranges.has rest n

end QbCodec.Text
