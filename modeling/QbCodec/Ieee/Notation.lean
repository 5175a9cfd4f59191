import QbCodec.Ieee.Rounding
import QbCodec.Ieee.Shortest
import QbCodec.Text.Decimal

namespace QbCodec.Single

def zeros (n : Nat) : List Char := List.replicate n '0'

def positional (d : Decimal) : List Char :=
  let digits := Text.numeral d.digits
  if 0 ≤ d.exponent then digits ++ zeros d.exponent.toNat ++ ['.', '0']
  else
    let places := (-d.exponent).toNat
    if places < digits.length then
      digits.take (digits.length - places) ++ '.' :: digits.drop (digits.length - places)
    else '0' :: '.' :: zeros (places - digits.length) ++ digits

def scientific (d : Decimal) : List Char :=
  let digits := Text.numeral d.digits
  let exponent := d.exponent + (digits.length - 1 : Nat)
  let fraction := match digits.drop 1 with
    | [] => []
    | rest => '.' :: rest
  digits.take 1 ++ fraction ++ 'e' :: Text.signedNumeral exponent

def sign (v : Single) : List Char := if v.isNegative then ['-'] else []

def textWith (finite : Decimal → List Char) (v : Single) : List Char :=
  if v.isNan then "NaN".toList
  else if !v.isFinite then v.sign ++ "inf".toList
  else if v.significand = 0 then v.sign ++ "0.0".toList
  else v.sign ++ finite v.shortest

def sourceText (v : Single) : List Char := v.textWith positional

def isModerate (d : Decimal) : Bool :=
  let leading := d.exponent + ((Text.numeral d.digits).length - 1 : Nat)
  leading < 16 && -4 ≤ leading

def diagnosticText (v : Single) : List Char :=
  v.textWith fun d => if isModerate d then positional d else scientific d

def parse? (cs : List Char) : Option Single :=
  let (negative, body) := match cs with
    | '-' :: rest => (true, rest)
    | rest => (false, rest)
  let whole := body.takeWhile Text.isDigit
  match body.dropWhile Text.isDigit with
  | '.' :: fraction =>
    if fraction.all Text.isDigit ∧ whole ++ fraction ≠ [] then
      some (ofFraction negative (Text.decimalValue (whole ++ fraction)) (10 ^ fraction.length))
    else none
  | _ => none

end QbCodec.Single
