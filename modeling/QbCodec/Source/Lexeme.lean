import QbCodec.Ieee.Notation
import QbCodec.Key.Basic
import QbCodec.Source.Keyword
import QbCodec.Text.Quoted

namespace QbCodec

inductive Mark
  | equals | dot | comma | plus | minus | multiply | divide
  | openParen | closeParen | openBrace | closeBrace | openBracket | closeBracket
  | lessThan | lessThanEqual | shiftLeft | greaterThan | greaterThanEqual | shiftRight
  | notEqual | or | and | colon | dollar | inlinePackStruct | newLine
  deriving DecidableEq

inductive Token
  | int (value : Int32)
  | float (value : Single)
  | string (text : String)
  | wideString (text : String)
  | name (text : String)
  | argument (text : String)
  | rawKey (key : Key)
  | keyword (word : Keyword)
  | mark (mark : Mark)
  deriving DecidableEq

structure Lexeme where
  token : Token
  offset : Nat
  deriving DecidableEq

def Mark.label : Mark → String
  | equals => "Equals"
  | dot => "Dot"
  | comma => "Comma"
  | plus => "Plus"
  | minus => "Minus"
  | multiply => "Multiply"
  | divide => "Divide"
  | openParen => "OpenParen"
  | closeParen => "CloseParen"
  | openBrace => "OpenBrace"
  | closeBrace => "CloseBrace"
  | openBracket => "OpenBracket"
  | closeBracket => "CloseBracket"
  | lessThan => "LessThan"
  | lessThanEqual => "LessThanEqual"
  | shiftLeft => "ShiftLeft"
  | greaterThan => "GreaterThan"
  | greaterThanEqual => "GreaterThanEqual"
  | shiftRight => "ShiftRight"
  | notEqual => "NotEqual"
  | or => "Or"
  | and => "And"
  | colon => "Colon"
  | dollar => "Dollar"
  | inlinePackStruct => "InlinePackStruct"
  | newLine => "NewLine"

def Mark.all : List Mark := [
  .equals, .dot, .comma, .plus, .minus, .multiply, .divide, .openParen, .closeParen, .openBrace,
  .closeBrace, .openBracket, .closeBracket, .lessThan, .lessThanEqual, .shiftLeft, .greaterThan,
  .greaterThanEqual, .shiftRight, .notEqual, .or, .and, .colon, .dollar, .inlinePackStruct,
  .newLine]

/-- The tag of a mark in a script body. An equals sign compares inside parentheses and assigns
outside them. Parentheses are not among the marks here, since they are counted where they are met. -/
def Mark.tag? (inParens : Bool) : Mark → Option Tag
  | equals => some (if inParens then .sameAs else .equals)
  | dot => some .dot
  | comma => some .comma
  | plus => some .add
  | minus => some .minus
  | multiply => some .multiply
  | divide => some .divide
  | openParen | closeParen => none
  | openBrace => some .startStruct
  | closeBrace => some .endStruct
  | openBracket => some .startArray
  | closeBracket => some .endArray
  | lessThan => some .lessThan
  | lessThanEqual => some .lessThanEqual
  | shiftLeft => some .shiftLeft
  | greaterThan => some .greaterThan
  | greaterThanEqual => some .greaterThanEqual
  | shiftRight => some .shiftRight
  | notEqual => some .notEqual
  | or => some .or
  | and => some .and
  | colon => some .colon
  | dollar => some .argumentPack
  | inlinePackStruct => some .inlinePackStruct
  | newLine => some .endOfLine

namespace Token

def diagnostic : Token → String
  | int value => s!"Int({value.toInt})"
  | float value => s!"Float({String.ofList value.diagnosticText})"
  | string text => s!"String({Text.quoted text})"
  | wideString text => s!"WideString({Text.quoted text})"
  | name text => s!"Name({Text.quoted text})"
  | argument text => s!"Argument({Text.quoted text})"
  | rawKey key => s!"RawKey({key.toNat})"
  | keyword word => s!"Keyword({word.label})"
  | mark m => m.label

end Token

end QbCodec
