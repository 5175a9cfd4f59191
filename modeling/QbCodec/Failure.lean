import QbCodec.Text.Hex

namespace QbCodec

/-- A fault of source text. `line` and `column` count from one, `offset` counts bytes, and
`lineText` is the line of the fault. -/
structure Diagnostic where
  offset : Nat
  line : Nat
  column : Nat
  reason : String
  lineText : String

def Diagnostic.message (d : Diagnostic) : String :=
  s!"[Ln {d.line}, Col {d.column}, @{d.offset}] QBC LEXER FAIL: {d.reason}\n    {d.lineText}\n    "
    ++ String.ofList (List.replicate (d.column - 1) ' ') ++ "^"

inductive Failure
  | noSource (path : String)
  | unreadable (path cause : String)
  | unwritable (path cause : String)
  | noDirectory (path cause : String)
  | brokenStream (cause : String)
  | endOfData (offset needed available : Nat)
  | shortHeader (expected length : Nat)
  | unknownItem (tag : UInt8) (offset : Nat)
  | invalidText (offset : Nat)
  | decompression (reason : String)
  | source (diagnostic : Diagnostic)
  | compile (reason : String)
  | aborted (reason : String)

namespace Failure

def message : Failure → String
  | noSource path => s!"source not found: '{path}'"
  | unreadable path cause => s!"failed to read file '{path}': {cause}"
  | unwritable path cause => s!"failed to write file '{path}': {cause}"
  | noDirectory path cause => s!"failed to create directory '{path}': {cause}"
  | brokenStream cause => s!"failed to read stream: {cause}"
  | endOfData offset needed available =>
    s!"unexpected end of data at offset {offset}: needed {needed} byte(s), {available} available"
  | shortHeader expected length =>
    s!"malformed QB header: expected {expected} bytes, file holds {length}"
  | unknownItem tag offset =>
    let digits := String.ofList (Text.hexFixed 2 tag.toNat)
    s!"unexpected item type 0x{digits} at offset {offset}"
  | invalidText offset => s!"invalid UTF-8 string at offset {offset}"
  | decompression reason => s!"decompression failed: {reason}"
  | source diagnostic => diagnostic.message
  | compile reason => s!"compile error: {reason}"
  | aborted reason => s!"job aborted: {reason}"

def isRecoverable : Failure → Bool
  | noSource _ | unreadable .. | unwritable .. | noDirectory .. | brokenStream _ => false
  | endOfData .. | shortHeader .. | unknownItem .. | invalidText _ | decompression _
  | source _ | compile _ | aborted _ => true

end Failure

end QbCodec
