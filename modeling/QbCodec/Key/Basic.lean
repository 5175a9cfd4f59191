import QbCodec.Bits.Crc32
import QbCodec.Text.Bytes
import QbCodec.Text.Hex
import QbCodec.Text.LetterCase

/-!
Keys: the 32-bit numbers that stand for names in compiled files. A key has one canonical spelling,
`0x` and eight upper-case digits; a reader also takes shorter spellings in either case.
-/

namespace QbCodec

abbrev Key := UInt32

namespace Key

def backslash (c : Char) : Char := if c = '/' then '\\' else c

/-- The form of a name that is hashed: lower case, with `\` for `/`. -/
def normalize (name : String) : List Char := (Text.lower name.toList).map backslash

def ofName (name : String) : Key :=
  Bits.Crc32.register (Text.utf8 (String.ofList (normalize name)))

def ofPhrase (phrase : String) : Key :=
  Bits.Crc32.register (Text.utf16le phrase.toList)

def spell (k : Key) : String := String.ofList ('0' :: 'x' :: Text.hexFixed 8 k.toNat)

def isCanonicalDigit (c : Char) : Bool := ('0' ≤ c && c ≤ '9') || ('A' ≤ c && c ≤ 'F')

def isCanonicalText : List Char → Bool
  | '0' :: 'x' :: digits => digits.length == 8 && digits.all isCanonicalDigit
  | _ => false

def isCanonical (text : String) : Bool := isCanonicalText text.toList

def dropMark : List Char → List Char
  | '0' :: 'x' :: digits => digits
  | '0' :: 'X' :: digits => digits
  | cs => cs

def dropPlus : List Char → List Char
  | '+' :: digits => digits
  | cs => cs

/-- An optional mark, then at most eight characters: digits after an optional plus sign. -/
def parseText? (cs : List Char) : Option Key :=
  let digits := dropMark cs
  if digits.length ≤ 8 then (Text.hexValue? (dropPlus digits)).map Nat.toUInt32 else none

def parse? (text : String) : Option Key := parseText? text.toList

/-- The key meant by a name in source text: a canonical spelling means itself. -/
def ofLiteral (text : String) : Key :=
  match parse? text with
  | some k => if isCanonical text then k else ofName text
  | none => ofName text

end Key

end QbCodec
