import QbCodec.Text.CaseTable

/-!
Lower and upper case of whole texts. A capital sigma is the only letter whose lower case depends
on its neighbours: it is final after a cased letter that no cased letter follows, where
case-ignorable characters between them do not count.
-/

namespace QbCodec.Text

def meetsCased (cs : List Char) : Bool :=
  match cs.dropWhile isCaseIgnorable with
  | [] => false
  | c :: _ => isCased c

def lowerChar (before : List Char) (c : Char) (after : List Char) : List Char :=
  if c = 'Σ' then
    if meetsCased before && !meetsCased after then ['ς'] else ['σ']
  else if c = 'İ' then ['i', '\u0307']
  else [mapRuns lowerRuns c]

def lowerAfter (before : List Char) : List Char → List Char
  | [] => []
  | c :: rest => lowerChar before c rest ++ lowerAfter (c :: before) rest

def lower (cs : List Char) : List Char := lowerAfter [] cs

def upperChar (c : Char) : List Char :=
  match upperLong.lookup c.toNat with
  | some cs => cs.map Char.ofNat
  | none => [mapRuns upperRuns c]

def upper (cs : List Char) : List Char := cs.flatMap upperChar

end QbCodec.Text
