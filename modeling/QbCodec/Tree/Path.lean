import QbCodec.Text.Lines

namespace QbCodec.Path

def isSlash (c : Char) : Bool := c = '/'

def notSlash (c : Char) : Bool := c ≠ '/'

def notDot (c : Char) : Bool := c ≠ '.'

def parts (path : String) : List String := (Text.pieces '/' path.toList).map String.ofList

def isAbsolute (path : String) : Bool := path.toList.head?.any isSlash

def name (path : String) : String :=
  String.ofList (path.toList.reverse.takeWhile notSlash).reverse

def directory (path : String) : String :=
  String.ofList (path.toList.reverse.dropWhile notSlash).reverse

def splitName (name : String) : String × Option String :=
  let reversed := name.toList.reverse
  match reversed.dropWhile notDot with
  | _ :: c :: stem =>
    (String.ofList (c :: stem).reverse, some (String.ofList (reversed.takeWhile notDot).reverse))
  | _ => (name, none)

def isProper (name : String) : Bool := name ≠ "" && name ≠ "." && name ≠ ".."

/-- A stem of one dot becomes two dots, which are no name of a file and so take no extension. -/
def withExtension (name extension : String) : String :=
  let stem := (splitName name).1
  if stem = "." then ".." else stem ++ "." ++ extension

def isIdle (part : String) : Bool := part = "" || part = "."

def parent (path : String) : String :=
  let upTo := (((parts path).reverse.dropWhile isIdle).drop 1).dropWhile isIdle
  "/".intercalate upTo.reverse

def nameLimit : Nat := 255

def pathLimit : Nat := 4095

def isNameable (name : String) : Bool := name.utf8ByteSize ≤ nameLimit

/-- Paths are limited as they are written, idle parts included. A longer one leads nowhere. -/
def isFollowable (path : String) : Bool := path.utf8ByteSize ≤ pathLimit

def admitsFile (path : String) : Bool :=
  isFollowable path && isProper (name path) && isNameable (name path)

def join (base path : String) : String :=
  if base = "" ∨ base.toList.getLast?.any isSlash then base ++ path else base ++ "/" ++ path

end QbCodec.Path
