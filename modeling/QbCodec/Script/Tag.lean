namespace QbCodec

inductive Tag
  | endOfFile | endOfLine | endOfLineNumber | startStruct | endStruct | startArray | endArray
  | equals | dot | comma | minus | add | divide | multiply | openParen | closeParen | debugInfo
  | sameAs | lessThan | lessThanEqual | greaterThan | greaterThanEqual | name | integer
  | hexInteger | enumeration | float | string | localString | array | vector | pair | begin
  | repeatWord | breakWord | script | endScript | ifWord | elseWord | elseIf | endIf | returnWord
  | undefined | checksumName | allArgs | arg | jump | random | randomRange | atSign | or | and
  | xor | shiftLeft | shiftRight | random2 | randomRange2 | not | keywordAnd | keywordOr | switch
  | endSwitch | caseWord | defaultWord | randomNoRepeat | randomPermute | colon
  | runtimeCFunction | runtimeMemberFunction | useHeap | unknown | fastIf | fastElse | shortJump
  | inlinePackStruct | argumentPack | wideString | notEqual | stringQs | randomFloat
  | randomInteger
  deriving DecidableEq

inductive Shape
  | bare | half | word | pair | triple | text
  deriving DecidableEq

namespace Tag

def all : List Tag := [
  .endOfFile, .endOfLine, .endOfLineNumber, .startStruct, .endStruct, .startArray, .endArray,
  .equals, .dot, .comma, .minus, .add, .divide, .multiply, .openParen, .closeParen, .debugInfo,
  .sameAs, .lessThan, .lessThanEqual, .greaterThan, .greaterThanEqual, .name, .integer,
  .hexInteger, .enumeration, .float, .string, .localString, .array, .vector, .pair, .begin,
  .repeatWord, .breakWord, .script, .endScript, .ifWord, .elseWord, .elseIf, .endIf, .returnWord,
  .undefined, .checksumName, .allArgs, .arg, .jump, .random, .randomRange, .atSign, .or, .and,
  .xor, .shiftLeft, .shiftRight, .random2, .randomRange2, .not, .keywordAnd, .keywordOr, .switch,
  .endSwitch, .caseWord, .defaultWord, .randomNoRepeat, .randomPermute, .colon,
  .runtimeCFunction, .runtimeMemberFunction, .useHeap, .unknown, .fastIf, .fastElse, .shortJump,
  .inlinePackStruct, .argumentPack, .wideString, .notEqual, .stringQs, .randomFloat,
  .randomInteger]

def byte : Tag → UInt8
  | endOfFile => 0x00
  | endOfLine => 0x01
  | endOfLineNumber => 0x02
  | startStruct => 0x03
  | endStruct => 0x04
  | startArray => 0x05
  | endArray => 0x06
  | equals => 0x07
  | dot => 0x08
  | comma => 0x09
  | minus => 0x0A
  | add => 0x0B
  | divide => 0x0C
  | multiply => 0x0D
  | openParen => 0x0E
  | closeParen => 0x0F
  | debugInfo => 0x10
  | sameAs => 0x11
  | lessThan => 0x12
  | lessThanEqual => 0x13
  | greaterThan => 0x14
  | greaterThanEqual => 0x15
  | name => 0x16
  | integer => 0x17
  | hexInteger => 0x18
  | enumeration => 0x19
  | float => 0x1A
  | string => 0x1B
  | localString => 0x1C
  | array => 0x1D
  | vector => 0x1E
  | pair => 0x1F
  | begin => 0x20
  | repeatWord => 0x21
  | breakWord => 0x22
  | script => 0x23
  | endScript => 0x24
  | ifWord => 0x25
  | elseWord => 0x26
  | elseIf => 0x27
  | endIf => 0x28
  | returnWord => 0x29
  | undefined => 0x2A
  | checksumName => 0x2B
  | allArgs => 0x2C
  | arg => 0x2D
  | jump => 0x2E
  | random => 0x2F
  | randomRange => 0x30
  | atSign => 0x31
  | or => 0x32
  | and => 0x33
  | xor => 0x34
  | shiftLeft => 0x35
  | shiftRight => 0x36
  | random2 => 0x37
  | randomRange2 => 0x38
  | not => 0x39
  | keywordAnd => 0x3A
  | keywordOr => 0x3B
  | switch => 0x3C
  | endSwitch => 0x3D
  | caseWord => 0x3E
  | defaultWord => 0x3F
  | randomNoRepeat => 0x40
  | randomPermute => 0x41
  | colon => 0x42
  | runtimeCFunction => 0x43
  | runtimeMemberFunction => 0x44
  | useHeap => 0x45
  | unknown => 0x46
  | fastIf => 0x47
  | fastElse => 0x48
  | shortJump => 0x49
  | inlinePackStruct => 0x4A
  | argumentPack => 0x4B
  | wideString => 0x4C
  | notEqual => 0x4D
  | stringQs => 0x4E
  | randomFloat => 0x4F
  | randomInteger => 0x50

def ofByte? (b : UInt8) : Option Tag := all[b.toNat]?

theorem ofByte?_byte (t : Tag) : ofByte? t.byte = some t := by cases t <;> rfl

def shape : Tag → Shape
  | name | integer | hexInteger | float | localString | stringQs | jump => .word
  | fastIf | fastElse | shortJump => .half
  | pair => .pair
  | vector => .triple
  | string | wideString => .text
  | _ => .bare

def fragment? : Tag → Option String
  | endOfLine | endOfLineNumber => some "\n"
  | startStruct => some "\x7b"
  | endStruct => some "\x7d"
  | startArray => some "["
  | endArray => some "]"
  | equals | sameAs => some " = "
  | dot => some "."
  | comma => some ","
  | minus => some " - "
  | add => some " + "
  | divide => some " / "
  | multiply => some " * "
  | openParen => some "("
  | closeParen => some ")"
  | lessThan => some " < "
  | lessThanEqual => some " <= "
  | greaterThan => some " > "
  | greaterThanEqual => some " >= "
  | begin => some "begin"
  | repeatWord => some "repeat "
  | breakWord => some "break"
  | returnWord => some "return "
  | allArgs => some "<...>"
  | random => some "Random"
  | randomRange => some "RandomRange"
  | or => some " || "
  | and => some " & "
  | shiftLeft => some " << "
  | shiftRight => some " >> "
  | random2 => some "Random2"
  | randomRange2 => some "RandomRange2"
  | not => some "NOT"
  | keywordAnd => some "&"
  | keywordOr => some "||"
  | randomNoRepeat => some "RandomNoRepeat"
  | randomPermute => some "RandomPermute"
  | colon => some "::"
  | inlinePackStruct => some "\\\x7b"
  | argumentPack => some "$"
  | notEqual => some " != "
  | randomFloat => some "RandomFloat"
  | randomInteger => some "RandomInteger"
  | _ => none

end Tag

end QbCodec
