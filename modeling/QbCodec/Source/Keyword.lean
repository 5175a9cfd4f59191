import QbCodec.Script.Tag

namespace QbCodec

inductive Keyword
  | script | endScript | ifWord | elseWord | elseIf | endIf | begin | repeatWord | breakWord
  | switch | caseWord | defaultWord | endSwitch | qs | random | random2 | randomRange
  | randomRange2 | randomNoRepeat | randomPermute | randomFloat | randomInteger | returnWord
  | not | allArgs
  deriving DecidableEq

namespace Keyword

def all : List Keyword := [
  .script, .endScript, .ifWord, .elseWord, .elseIf, .endIf, .begin, .repeatWord, .breakWord,
  .switch, .caseWord, .defaultWord, .endSwitch, .qs, .random, .random2, .randomRange,
  .randomRange2, .randomNoRepeat, .randomPermute, .randomFloat, .randomInteger, .returnWord,
  .not, .allArgs]

def word : Keyword → String
  | script => "script"
  | endScript => "endscript"
  | ifWord => "if"
  | elseWord => "else"
  | elseIf => "elseif"
  | endIf => "endif"
  | begin => "begin"
  | repeatWord => "repeat"
  | breakWord => "break"
  | switch => "switch"
  | caseWord => "case"
  | defaultWord => "default"
  | endSwitch => "endswitch"
  | qs => "qs"
  | random => "random"
  | random2 => "random2"
  | randomRange => "randomrange"
  | randomRange2 => "randomrange2"
  | randomNoRepeat => "randomnorepeat"
  | randomPermute => "randompermute"
  | randomFloat => "randomfloat"
  | randomInteger => "randominteger"
  | returnWord => "return"
  | not => "not"
  | allArgs => "<...>"

def label : Keyword → String
  | script => "Script"
  | endScript => "EndScript"
  | ifWord => "If"
  | elseWord => "Else"
  | elseIf => "ElseIf"
  | endIf => "EndIf"
  | begin => "Begin"
  | repeatWord => "Repeat"
  | breakWord => "Break"
  | switch => "Switch"
  | caseWord => "Case"
  | defaultWord => "Default"
  | endSwitch => "EndSwitch"
  | qs => "Qs"
  | random => "Random"
  | random2 => "Random2"
  | randomRange => "RandomRange"
  | randomRange2 => "RandomRange2"
  | randomNoRepeat => "RandomNoRepeat"
  | randomPermute => "RandomPermute"
  | randomFloat => "RandomFloat"
  | randomInteger => "RandomInteger"
  | returnWord => "Return"
  | not => "Not"
  | allArgs => "AllArgs"

def tag? : Keyword → Option Tag
  | script => some .script
  | endScript => some .endScript
  | ifWord => some .ifWord
  | elseWord => some .elseWord
  | elseIf => some .elseIf
  | endIf => some .endIf
  | begin => some .begin
  | repeatWord => some .repeatWord
  | breakWord => some .breakWord
  | switch => some .switch
  | caseWord => some .caseWord
  | defaultWord => some .defaultWord
  | endSwitch => some .endSwitch
  | qs => none
  | random => some .random
  | random2 => some .random2
  | randomRange => some .randomRange
  | randomRange2 => some .randomRange2
  | randomNoRepeat => some .randomNoRepeat
  | randomPermute => some .randomPermute
  | randomFloat => some .randomFloat
  | randomInteger => some .randomInteger
  | returnWord => some .returnWord
  | not => some .not
  | allArgs => some .allArgs

def ofWord? (text : String) : Option Keyword :=
  let folded := text.map Char.toLower
  all.find? fun k => k.word == folded

end Keyword

end QbCodec
