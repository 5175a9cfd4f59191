import QbCodec.Script.Tag

namespace QbCodec

inductive Game
  | ghwt | gh3 | gh6 | thaw | thug2 | thug1 | thps4
  deriving DecidableEq

namespace Game

def all : List Game := [.ghwt, .gh3, .gh6, .thaw, .thug2, .thug1, .thps4]

def name : Game → String
  | ghwt => "ghwt"
  | gh3 => "gh3"
  | gh6 => "gh6"
  | thaw => "thaw"
  | thug2 => "thug2"
  | thug1 => "thug1"
  | thps4 => "thps4"

def canCompile : Game → Bool
  | ghwt | gh3 | gh6 | thaw => true
  | thug2 | thug1 | thps4 => false

def phraseTag : Game → Tag
  | gh3 | thaw => .localString
  | _ => .stringQs

def ofName? (text : String) : Option Game :=
  let folded := text.map Char.toLower
  if folded == "gh4" then some ghwt else all.find? fun g => g.name == folded

def unknownMessage (text : String) : String :=
  s!"unknown game '{text}', expected one of: " ++ ", ".intercalate (all.map name)

end Game

end QbCodec
