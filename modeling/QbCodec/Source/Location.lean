import QbCodec.Failure
import QbCodec.Text.Blank
import QbCodec.Text.Lines

namespace QbCodec.Source

def byteCount (cs : List Char) : Nat := cs.foldl (fun n c => n + c.utf8Size) 0

def before : Nat → List Char → List Char
  | _, [] => []
  | offset, c :: rest =>
    if c.utf8Size ≤ offset then c :: before (offset - c.utf8Size) rest else []

def isNewline (c : Char) : Bool := c = '\n'

def lastLine (cs : List Char) : List Char :=
  (cs.reverse.takeWhile fun c => !isNewline c).reverse

def lineAt (source : List Char) (offset : Nat) : Nat := (before offset source).count '\n' + 1

def columnAt (source : List Char) (offset : Nat) : Nat := (lastLine (before offset source)).length + 1

def lineText (source : List Char) (line : Nat) : List Char :=
  Text.dropEnd Text.isReturn ((Text.lines source).getD (line - 1) [])

def diagnose (source : List Char) (offset : Nat) (reason : String) : Diagnostic :=
  let line := lineAt source offset
  ⟨offset, line, columnAt source offset, reason, String.ofList (lineText source line)⟩

end QbCodec.Source
