import QbCodec.Text.Blank

/-!
The text of a script as it is written: pieces with blanks between them where they need one, lines,
and an indentation that follows the blocks that are open. The indentation of a line is written with
its first piece, so that a closing word stands as deep as the word that opened its block.
-/

namespace QbCodec

/-- How a piece of text behaves beside others: words, what binds to the next word, brackets,
braces, what binds both sides, commas, and operators that bring their own blanks. -/
inductive Piece
  | word | binder | opening | closing | blockOpening | blockClosing | joiner | separator | spaced
  deriving DecidableEq

def Piece.apart (previous piece : Piece) : Bool :=
  match piece with
  | word | binder | opening | blockOpening =>
    match previous with
    | word | closing | blockOpening | blockClosing | separator => true
    | _ => false
  | blockClosing =>
    match previous with
    | word | closing | blockClosing => true
    | _ => false
  | closing | joiner | separator | spaced => false

inductive Block
  | struct | array | loop | conditional | switch | arm
  deriving DecidableEq

/-- `written` starts with the last character, `blocks` with the innermost. -/
structure Layout where
  written : List Char := []
  blocks : List Block := []
  atLineStart : Bool := false
  previous : Option Piece := none

inductive Action
  | newLine
  | write (piece : Piece) (text : List Char)
  | writeOutdented (piece : Piece) (text : List Char)
  | enter (block : Block)
  | leave (block : Block)

namespace Layout

def depth (l : Layout) : Nat := l.blocks.length + 1

def indentation (indent : List Char) (depth : Nat) : List Char :=
  (List.replicate depth indent).flatten

def endsBlank (l : Layout) : Bool := l.written.head?.any Text.isBlank

def writeAt (indent : List Char) (depth : Nat) (piece : Piece) (text : List Char) (l : Layout) :
    Layout :=
  if l.atLineStart then
    { l with
      written := (Text.trimStart text).reverse ++ ((indentation indent depth).reverse ++ l.written)
      atLineStart := false
      previous := some piece }
  else
    let blank := l.previous.any (Piece.apart · piece) && !l.endsBlank
    { l with
      written := text.reverse ++ (if blank then ' ' :: l.written else l.written)
      previous := some piece }

def isPadding (c : Char) : Bool := c == ' ' || c == '\t'

def newLine (l : Layout) : Layout :=
  { l with
    written := '\n' :: l.written.dropWhile isPadding
    atLineStart := true
    previous := none }

def leave (block : Block) (l : Layout) : Layout :=
  match l.blocks with
  | [] => l
  | b :: outer => if b = block then { l with blocks := outer } else l

def act (indent : List Char) (l : Layout) : Action → Layout
  | .newLine => l.newLine
  | .write piece text => l.writeAt indent l.depth piece text
  | .writeOutdented piece text => l.writeAt indent (l.depth - 1) piece text
  | .enter block => { l with blocks := block :: l.blocks }
  | .leave block => l.leave block

def acts (indent : List Char) (l : Layout) (as : List Action) : Layout := as.foldl (act indent) l

def text (l : Layout) : List Char := (l.written.dropWhile Text.isBlank).reverse

end Layout

end QbCodec
