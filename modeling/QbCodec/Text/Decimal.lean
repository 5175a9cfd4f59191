namespace QbCodec.Text

def isDigit (c : Char) : Bool := '0' ≤ c && c ≤ '9'

def digitValue (c : Char) : Nat := c.toNat - '0'.toNat

def decimalFrom (n : Nat) (cs : List Char) : Nat :=
  cs.foldl (fun m c => m * 10 + digitValue c) n

def decimalValue (cs : List Char) : Nat := decimalFrom 0 cs

def integer? : List Char → Option Int
  | '-' :: cs => if cs ≠ [] ∧ cs.all isDigit then some (-(decimalValue cs : Int)) else none
  | cs => if cs ≠ [] ∧ cs.all isDigit then some (decimalValue cs) else none

def numeral (n : Nat) : List Char := Nat.toDigits 10 n

def signedNumeral (n : Int) : List Char :=
  if n < 0 then '-' :: numeral n.natAbs else numeral n.natAbs

end QbCodec.Text
