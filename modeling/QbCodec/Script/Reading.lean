import QbCodec.Ieee.Notation
import QbCodec.Key.Registry
import QbCodec.Script.Instruction
import QbCodec.Script.Layout

namespace QbCodec

def rawKeyText (k : Key) : List Char := "#\"".toList ++ k.spell.toList ++ ['"']

def Registry.keyText (r : Registry) (k : Key) : List Char :=
  match r.resolve k with
  | some literal => literal.toList
  | none => rawKeyText k

namespace Script

def piece : Tag → Piece
  | .equals | .sameAs | .minus | .add | .divide | .multiply | .lessThan | .lessThanEqual
  | .greaterThan | .greaterThanEqual | .or | .and | .shiftLeft | .shiftRight | .notEqual => .spaced
  | .dot | .colon => .joiner
  | .comma => .separator
  | .openParen => .opening
  | .closeParen => .closing
  | .argumentPack => .binder
  | _ => .word

def isNul (c : Char) : Bool := c == '\x00'

def escapeChar (c : Char) : List Char := if c = '\'' then ['\\', '\''] else [c]

def stringText (wide : Bool) (stored : String) : List Char :=
  let text := Text.dropEnd isNul stored.toList
  if wide then '"' :: text ++ ['"'] else '\'' :: text.flatMap escapeChar ++ ['\'']

def tupleText (vs : List Single) : List Char :=
  '(' :: (", ".toList.intercalate (vs.map Single.sourceText)) ++ [')']

def phraseText (k : Key) : List Char := "qs(".toList ++ rawKeyText k ++ [')']

def word (text : String) : Action := .write .word text.toList

def ifActions : List Action := [word "if", .enter .conditional]

def elseActions : List Action := [.writeOutdented .word "else".toList]

def armActions (text : String) : List Action := [.leave .arm, word text, .enter .arm]

def tagActions (t : Tag) : List Action :=
  match t with
  | .endOfLine | .endOfLineNumber => [.newLine]
  | .startStruct => [.write .blockOpening ['\x7b'], .enter .struct]
  | .inlinePackStruct => [.write .blockOpening ['\\', '\x7b'], .enter .struct]
  | .endStruct => [.leave .struct, .write .blockClosing ['\x7d']]
  | .startArray => [.write .opening ['['], .enter .array]
  | .endArray => [.leave .array, .write .closing [']']]
  | .begin => [word "begin", .enter .loop]
  | .repeatWord => [.leave .loop, word "repeat "]
  | .ifWord => ifActions
  | .elseWord => elseActions
  | .elseIf => [.writeOutdented .word "elseif".toList]
  | .endIf => [.leave .conditional, word "endif"]
  | .switch => [word "switch", .enter .switch]
  | .caseWord => armActions "case"
  | .defaultWord => armActions "default"
  | .endSwitch => [.leave .arm, .leave .switch, word "endswitch"]
  | t =>
    match t.fragment? with
    | some text => [.write (piece t) text.toList]
    | none => []

def actions (r : Registry) (asArgument : Bool) : Instruction → List Action
  | .bare t => tagActions t
  | .half .fastIf _ => ifActions
  | .half .fastElse _ => elseActions
  | .half _ _ => []
  | .word .name k =>
    [.write .word (if asArgument then '<' :: r.keyText k ++ ['>'] else r.keyText k)]
  | .word .integer v => [.write .word (Text.signedNumeral v.toInt32.toInt)]
  | .word .hexInteger k => [.write .word (rawKeyText k)]
  | .word .float v => [.write .word (Single.sourceText ⟨v⟩)]
  | .word .localString k | .word .stringQs k => [.write .word (phraseText k)]
  | .word _ _ => []
  | .pair x y => [.write .word (tupleText [x, y])]
  | .vector x y z => [.write .word (tupleText [x, y, z])]
  | .text wide stored => [.write .word (stringText wide stored)]
  | .other _ => []

/-- An argument marker holds for the next name, whatever stands between them. -/
def marksArgument (asArgument : Bool) : Instruction → Bool
  | .bare .arg => true
  | .word .name _ => false
  | _ => asArgument

structure State where
  layout : Layout := {}
  asArgument : Bool := false

def step (r : Registry) (indent : List Char) (s : State) (i : Instruction) : State :=
  ⟨s.layout.acts indent (actions r s.asArgument i), marksArgument s.asArgument i⟩

def render (r : Registry) (indent : List Char) (is : List Instruction) : List Char :=
  (is.foldl (step r indent) {}).layout.text

/-- The text of a body stored in a file of the given order. Bodies are in the opposite order. -/
def bodyText (r : Registry) (indent : List Char) (order : ByteOrder) (body : List UInt8) :
    List Char :=
  render r indent (Instruction.decodeBody order.inverse body)

end Script

end QbCodec
