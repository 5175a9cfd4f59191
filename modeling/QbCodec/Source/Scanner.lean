import QbCodec.Source.Lexeme
import QbCodec.Source.Location
import QbCodec.Text.Alphanumeric

/-!
Reading source text as lexemes. The scanner takes one character at a time, or two where the first
and the next belong together, and holds the characters of an unfinished token until a boundary
turns them into one.
-/

namespace QbCodec.Source

inductive Fault
  | unexpected (c : Char)
  | quoteInString (wide : Bool) (text : List Char)
  | argumentNotClosed
  | argumentNotOpened
  | endWithoutScript
  | malformedKey (text : List Char)
  | unterminatedString (wide : Bool)
  | unterminatedKey
  | unterminatedComment
  | scriptNotClosed

def stringKind (wide : Bool) : String := if wide then "wide string" else "string"

def Fault.reason : Fault → String
  | unexpected c => s!"Unexpected character '{c}'."
  | quoteInString wide text =>
    let replacement := if wide then "''" else "\\'\\'"
    s!"Illegal use of quotation marks in {stringKind wide}; use double apostrophes ({replacement}) "
      ++ s!"to emulate a quotation mark. -> ({String.ofList text})"
  | argumentNotClosed => "Local argument found opened, but not closed: '<' found, but not '>'."
  | argumentNotOpened => "Local argument found closed, but not opened: '>' found, but not '<'."
  | endWithoutScript => "endscript found without a matching script."
  | malformedKey text => s!"Malformed raw key #\"{String.ofList text}\"."
  | unterminatedString wide => s!"Unterminated {stringKind wide}."
  | unterminatedKey => "Unterminated raw key."
  | unterminatedComment => "Unterminated block comment."
  | scriptNotClosed => "script opened, but never closed with endscript."

structure Stop where
  offset : Nat
  fault : Fault

inductive Mode
  | code
  | lineComment
  | blockComment
  | string (wide : Bool)
  | rawKey
  deriving DecidableEq

/-- `held` and `done` start with what came last. `scripts` has the position among the lexemes of
each script that is still open, the innermost first, and `depth` counts them. -/
structure Scanner where
  mode : Mode := .code
  held : List Char := []
  start : Nat := 0
  depth : Nat := 0
  scripts : List Nat := []
  done : List Lexeme := []

def isNameChar (c : Char) : Bool := Text.isAlphanumeric c || c == '_'

def isIntChar (c : Char) : Bool := c == '-' || Text.isDigit c

def isFloatChar (c : Char) : Bool := c == '.' || isIntChar c

def isLineEnd (c : Char) : Bool := c == '\n' || c == '\r'

def int32? (text : List Char) : Option Int32 :=
  match Text.integer? text with
  | some n => if -2 ^ 31 ≤ n ∧ n < 2 ^ 31 then some (Int32.ofInt n) else none
  | none => none

def number? (text : List Char) : Option Token :=
  if text.contains '.' && text.all isFloatChar then (Single.parse? text).map .float
  else if text.all isIntChar then (int32? text).map .int
  else none

def isOpened : List Char → Bool
  | '<' :: _ => true
  | _ => false

def isClosed (text : List Char) : Bool := text.getLast? == some '>'

def word (text : List Char) : Token :=
  match Keyword.ofWord? (String.ofList text) with
  | some k => .keyword k
  | none =>
    if 2 < text.length && isOpened text && isClosed text then
      .argument (String.ofList (text.drop 1).dropLast)
    else .name (String.ofList text)

namespace Scanner

def push (s : Scanner) (token : Token) (offset : Nat) : Scanner :=
  { s with done := ⟨token, offset⟩ :: s.done }

def hold (s : Scanner) (c : Char) : Scanner := { s with held := c :: s.held }

def extend (s : Scanner) (c : Char) (offset : Nat) : Scanner :=
  if s.held.isEmpty then { s with held := [c], start := offset } else s.hold c

def pushWord (s : Scanner) (token : Token) : Except Stop Scanner :=
  match token with
  | .keyword .script =>
    .ok { s.push token s.start with depth := s.depth + 1, scripts := s.done.length :: s.scripts }
  | .keyword .endScript =>
    match s.scripts with
    | [] => .error ⟨s.start, .endWithoutScript⟩
    | _ :: outer => .ok { s.push token s.start with depth := s.depth - 1, scripts := outer }
  | _ => .ok (s.push token s.start)

def flush (s : Scanner) : Except Stop Scanner :=
  if s.held.isEmpty then .ok s
  else
    let text := s.held.reverse
    let rest := { s with held := [] }
    match number? text with
    | some token => .ok (rest.push token s.start)
    | none =>
      if 1 < text.length && isOpened text && !isClosed text then
        .error ⟨s.start, .argumentNotClosed⟩
      else if 1 < text.length && isClosed text && !isOpened text then
        .error ⟨s.start, .argumentNotOpened⟩
      else rest.pushWord (word text)

/-- Line ends do not belong to the text of a string. -/
def closeString (s : Scanner) (wide : Bool) : Except Stop Scanner :=
  let text := s.held.reverse.filter fun c => !isLineEnd c
  if text.contains '"' then .error ⟨s.start, .quoteInString wide text⟩
  else
    let token := if wide then Token.wideString (String.ofList text) else .string (String.ofList text)
    .ok ({ s with mode := .code, held := [] }.push token s.start)

def closeKey (s : Scanner) : Except Stop Scanner :=
  let text := s.held.reverse
  match Key.parseText? (Text.trim text) with
  | some k => .ok ({ s with mode := .code, held := [] }.push (.rawKey k) s.start)
  | none => .error ⟨s.start, .malformedKey text⟩

def enter (s : Scanner) (mode : Mode) (offset : Nat) : Except Stop Scanner :=
  s.flush.map fun t => { t with mode, start := offset }

def takesPoint (s : Scanner) (next : Option Char) : Bool :=
  if s.held.isEmpty then next.any Text.isDigit
  else s.held.getLast? == some '<' || s.held.all isIntChar

end Scanner

def mark? (c : Char) (next : Option Char) : Option (Mark × Bool) :=
  match c, next with
  | '\\', some '\x7b' => some (.inlinePackStruct, true)
  | '<', some '=' => some (.lessThanEqual, true)
  | '<', some '<' => some (.shiftLeft, true)
  | '<', _ => some (.lessThan, false)
  | '>', some '=' => some (.greaterThanEqual, true)
  | '>', some '>' => some (.shiftRight, true)
  | '>', _ => some (.greaterThan, false)
  | '!', some '=' => some (.notEqual, true)
  | '|', some '|' => some (.or, true)
  | ':', some ':' => some (.colon, true)
  | '=', _ => some (.equals, false)
  | '.', _ => some (.dot, false)
  | ',', _ => some (.comma, false)
  | '+', _ => some (.plus, false)
  | '-', _ => some (.minus, false)
  | '*', _ => some (.multiply, false)
  | '/', _ => some (.divide, false)
  | '(', _ => some (.openParen, false)
  | ')', _ => some (.closeParen, false)
  | '\x7b', _ => some (.openBrace, false)
  | '\x7d', _ => some (.closeBrace, false)
  | '[', _ => some (.openBracket, false)
  | ']', _ => some (.closeBracket, false)
  | '&', _ => some (.and, false)
  | '$', _ => some (.dollar, false)
  | _, _ => none

namespace Scanner

abbrev Step := Except Stop (Scanner × Bool)

def one (s : Except Stop Scanner) : Step := s.map (·, false)

def two (s : Except Stop Scanner) : Step := s.map (·, true)

def codeStep (s : Scanner) (offset : Nat) (c : Char) (next : Option Char) : Step :=
  if c = '/' ∧ next = some '/' then two (s.enter .lineComment offset)
  else if c = '/' ∧ next = some '*' then two (s.enter .blockComment offset)
  else if c = '\'' then one (s.enter (.string false) offset)
  else if c = '"' then one (s.enter (.string true) offset)
  else if c = '#' ∧ next = some '"' then two (s.enter .rawKey offset)
  else if c = '\n' then one (s.flush.map (·.push (.mark .newLine) offset))
  else if c = ' ' ∨ c = '\t' ∨ c = '\r' then one s.flush
  else if c = '<' ∧ s.held.isEmpty ∧ next.any fun n => isNameChar n || n == '.' then
    one (.ok (s.extend '<' offset))
  else if c = '>' ∧ !s.held.isEmpty then one (s.hold '>').flush
  else if c = '.' ∧ s.takesPoint next then one (.ok (s.extend '.' offset))
  else if c = '-' ∧ s.held.isEmpty ∧ next.any fun n => Text.isDigit n || n == '.' then
    one (.ok (s.extend '-' offset))
  else match mark? c next with
    | some (m, both) => s.flush.map fun t => (t.push (.mark m) offset, both)
    | none =>
      if isNameChar c then one (.ok (s.extend c offset))
      else .error ⟨offset, .unexpected c⟩

/-- Two apostrophes, or one behind a backslash, stand for one in a narrow string. -/
def stringStep (s : Scanner) (wide : Bool) (c : Char) (next : Option Char) : Step :=
  if wide then
    if c = '"' then one (s.closeString wide) else one (.ok (s.hold c))
  else if (c = '\\' ∨ c = '\'') ∧ next = some '\'' then two (.ok (s.hold '\''))
  else if c = '\'' then one (s.closeString wide)
  else one (.ok (s.hold c))

def step (s : Scanner) (offset : Nat) (c : Char) (next : Option Char) : Step :=
  match s.mode with
  | .lineComment =>
    if c = '\n' then one (.ok ({ s with mode := .code }.push (.mark .newLine) offset))
    else one (.ok s)
  | .blockComment =>
    if c = '*' ∧ next = some '/' then two (.ok { s with mode := .code }) else one (.ok s)
  | .rawKey => if c = '"' then one s.closeKey else one (.ok (s.hold c))
  | .string wide => s.stringStep wide c next
  | .code => s.codeStep offset c next

def run (s : Scanner) (offset : Nat) : List Char → Except Stop Scanner
  | [] => .ok s
  | [c] => (s.step offset c none).map (·.1)
  | c :: d :: rest =>
    match s.step offset c (some d) with
    | .error e => .error e
    | .ok (t, true) => t.run (offset + c.utf8Size + d.utf8Size) rest
    | .ok (t, false) => t.run (offset + c.utf8Size) (d :: rest)

def close (s : Scanner) (offset : Nat) : Except Stop (List Lexeme) :=
  match s.mode with
  | .string wide => .error ⟨s.start, .unterminatedString wide⟩
  | .rawKey => .error ⟨s.start, .unterminatedKey⟩
  | .blockComment => .error ⟨offset, .unterminatedComment⟩
  | .code | .lineComment =>
    match s.flush with
    | .error e => .error e
    | .ok t =>
      match t.scripts with
      | [] => .ok t.done.reverse
      | i :: _ =>
        .error ⟨(t.done.reverse[i]?.map Lexeme.offset).getD offset, .scriptNotClosed⟩

end Scanner

def scan (text : List Char) : Except Stop (List Lexeme) :=
  if text.all Text.isBlank then .ok []
  else
    match Scanner.run {} 0 text with
    | .error e => .error e
    | .ok s => s.close (byteCount text)

def lexemes (source : String) : Except Failure (List Lexeme) :=
  (scan source.toList).mapError fun stop =>
    .source (diagnose source.toList stop.offset stop.fault.reason)

end QbCodec.Source
