import QbCodec.Key.Registry

namespace QbCodec.Key.Bank

def isQuote (c : Char) : Bool := c = '"'

def keyWidth : List Char → Nat
  | '0' :: 'x' :: _ => 10
  | '0' :: 'X' :: _ => 10
  | _ => 8

def unquote (cs : List Char) : List Char := Text.dropEnd isQuote (cs.dropWhile isQuote)

def entry? (line : List Char) : Option (Key × String) :=
  let width := keyWidth line
  if line.length < width then none
  else (parseText? (line.take width)).map fun k =>
    (k, String.ofList (unquote (Text.trim (line.drop width))))

def entries (text : String) : List (Key × String) :=
  (Text.lines text.toList).filterMap fun line => entry? (Text.dropEnd Text.isReturn line)

end QbCodec.Key.Bank

namespace QbCodec.Registry

def assignAll (r : Registry) (entries : List (Key × String)) : Registry :=
  entries.foldl (fun r e => r.assign e.1 e.2) r

def register (r : Registry) (bank : String) : Registry × Nat :=
  let entries := Key.Bank.entries bank
  (r.assignAll entries, entries.length)

end QbCodec.Registry
